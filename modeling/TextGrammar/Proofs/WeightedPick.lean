-- The law of picking by weight: only an item of positive weight is picked. Rounding may move the
-- ends of the parts and the point between them, but never past one another: sums only grow, and
-- the point stays below the end of the line.
import Mathlib.Data.List.Forall2
import Mathlib.Tactic.SplitIfs
import TextGrammar.Chance.Weighted
import TextGrammar.Proofs.Rounding

namespace TextGrammar

namespace Double

/-! ## Counts of units -/

/-- The number is worth `n` units; either zero is worth none. -/
def Counts (x : Double) (n : Nat) : Prop :=
  ∃ negative m, x = .finite negative m ∧ signedUnits negative m = (n : Int)

theorem counts_finite (m : Magnitude) : (finite false m).Counts m.units := ⟨false, m, rfl, rfl⟩

/-- A number that is not negative is worth its units, and has a sign only when it has none. -/
theorem units_of_signedUnits {negative : Bool} {m : Magnitude} {n : Nat}
    (h : signedUnits negative m = (n : Int)) : m.units = n ∧ (negative = true → n = 0) := by
  cases negative with
  | false => exact ⟨Int.ofNat_inj.mp h, fun h => nomatch h⟩
  | true =>
    simp only [signedUnits] at h
    omega

theorem Counts.fits {x : Double} {n : Nat} (h : x.Counts n) : Fits n := by
  obtain ⟨_, m, _, hn⟩ := h
  rw [← (units_of_signedUnits hn).1]
  exact m.fits

theorem Counts.grain_dvd {x : Double} {n : Nat} (h : x.Counts n) : grain n ∣ n :=
  grain_dvd_self_of_fits h.fits

theorem lt_iff {x y : Double} {a b : Nat} (hx : x.Counts a) (hy : y.Counts b) :
    x.lt y = true ↔ a < b := by
  obtain ⟨_, m, rfl, ha⟩ := hx
  obtain ⟨_, n, rfl, hb⟩ := hy
  simp only [lt, compare?, ha, hb, beq_iff_eq, Option.some.injEq, Int.compare_eq_lt,
    Int.ofNat_lt]

theorem roundUnits_zero {den : Nat} (hden : 0 < den) : roundUnits 0 den = 0 :=
  Nat.le_zero.mp (roundUnits_le hden (Nat.dvd_zero _) (Nat.zero_le _))

theorem counts_ofUnits {num den : Nat} (hfits : Fits (roundUnits num den)) :
    (ofUnits false num den).Counts (roundUnits num den) := by
  rw [ofUnits, dif_pos hfits]
  exact counts_finite _

theorem counts_ofUnits_zero (negative : Bool) {den : Nat} (hden : 0 < den) :
    (ofUnits negative 0 den).Counts 0 := by
  have hround := roundUnits_zero hden
  have hfits : Fits (roundUnits 0 den) := by
    rw [hround]
    exact fits_zero
  rw [ofUnits, dif_pos hfits]
  refine ⟨negative, ⟨roundUnits 0 den, hfits⟩, rfl, ?_⟩
  cases negative <;> simp [signedUnits, hround]

theorem Counts.add {x y : Double} {a b : Nat} (hx : x.Counts a) (hy : y.Counts b)
    (hfits : Fits (roundUnits (a + b) 1)) : (x + y).Counts (roundUnits (a + b) 1) := by
  obtain ⟨s, m, rfl, ha⟩ := hx
  obtain ⟨t, n, rfl, hb⟩ := hy
  have hadd : finite s m + finite t n =
      if (a : Int) + b = 0 then ofUnits (s && t) 0 1
      else ofUnits (decide ((a : Int) + b < 0)) ((a : Int) + b).natAbs 1 := by
    rw [← ha, ← hb]
    rfl
  have hnonneg : ¬((a : Int) + b < 0) := by omega
  have habs : ((a : Int) + b).natAbs = a + b := by omega
  rw [hadd, habs, decide_eq_false hnonneg]
  split
  · rename_i hzero
    have hsum : a + b = 0 := by omega
    rw [hsum, roundUnits_zero (by decide)]
    exact counts_ofUnits_zero _ (by decide)
  · exact counts_ofUnits hfits

theorem mul_eq (x y : Double) : x * y = x.mul y := rfl

theorem div_eq (x y : Double) : x / y = x.div y := rfl

theorem Counts.mul {x y : Double} {a b : Nat} (hx : x.Counts a) (hy : y.Counts b)
    (hfits : Fits (roundUnits (a * b) unitsPerOne)) :
    (x * y).Counts (roundUnits (a * b) unitsPerOne) := by
  obtain ⟨s, m, rfl, ha⟩ := hx
  obtain ⟨t, n, rfl, hb⟩ := hy
  obtain ⟨rfl, hs⟩ := units_of_signedUnits ha
  obtain ⟨rfl, ht⟩ := units_of_signedUnits hb
  rw [mul_eq, Double.mul]
  cases hsign : s != t with
  | false => exact counts_ofUnits hfits
  | true =>
    have hzero : m.units * n.units = 0 := by
      cases s with
      | true => rw [hs rfl, Nat.zero_mul]
      | false =>
        have ht' : t = true := by simpa using hsign
        rw [ht ht', Nat.mul_zero]
    rw [hzero, roundUnits_zero unitsPerOne_pos]
    exact counts_ofUnits_zero _ unitsPerOne_pos

end Double

/-! ## Shares -/

theorem max_infinite (w : Double) : Double.max (.infinite false) w = .infinite false := by
  unfold Double.max Double.lt Double.compare?
  cases w with
  | nan => rfl
  | infinite negative => cases negative <;> rfl
  | finite negative m => rfl

theorem foldl_max_infinite (weights : List Double) :
    weights.foldl Double.max (.infinite false) = .infinite false := by
  induction weights with
  | nil => rfl
  | cons w weights ih => rw [List.foldl_cons, max_infinite, ih]

/-- The larger of two numbers is one of them, and is worth as much as each. -/
theorem counts_max {start w : Double} {a : Nat} (hstart : start.Counts a)
    (hw : w ≠ .infinite false) : ∃ b, (start.max w).Counts b ∧ a ≤ b ∧
      (start.max w = start ∨ start.max w = w) ∧ ∀ m, w = .finite false m → m.units ≤ b := by
  obtain ⟨s, m, rfl, ha⟩ := hstart
  have hkeep : (Double.finite s m).Counts a := ⟨s, m, rfl, ha⟩
  cases w with
  | nan => exact ⟨a, hkeep, Nat.le_refl _, Or.inl rfl, by simp⟩
  | infinite negative =>
    cases negative with
    | false => exact absurd rfl hw
    | true => exact ⟨a, hkeep, Nat.le_refl _, Or.inl rfl, by simp⟩
  | finite t n =>
    have hmax : (Double.finite s m).max (.finite t n) =
        if (Double.finite s m).lt (.finite t n) then .finite t n else .finite s m := rfl
    have hlt : (Double.finite s m).lt (.finite t n) = true ↔
        (a : Int) < Double.signedUnits t n := by
      simp only [Double.lt, Double.compare?, ha, beq_iff_eq, Option.some.injEq, Int.compare_eq_lt]
    rw [hmax]
    split
    · rename_i h
      rw [hlt] at h
      cases t with
      | true =>
        simp only [Double.signedUnits] at h
        omega
      | false =>
        simp only [Double.signedUnits, Int.ofNat_lt] at h
        refine ⟨n.units, Double.counts_finite n, Nat.le_of_lt h, Or.inr rfl, ?_⟩
        rintro _ ⟨rfl⟩
        exact Nat.le_refl _
    · rename_i h
      rw [hlt] at h
      refine ⟨a, hkeep, Nat.le_refl _, Or.inl rfl, ?_⟩
      rintro _ ⟨rfl⟩
      simpa [Double.signedUnits] using h

/-- The largest of some weights, when it is finite, is worth at least as much as each. -/
theorem counts_foldl_max {weights : List Double} {start : Double} {a : Nat}
    (hstart : start.Counts a) (hfinite : (weights.foldl Double.max start).isFinite = true) :
    ∃ b, (weights.foldl Double.max start).Counts b ∧ a ≤ b ∧
      (weights.foldl Double.max start = start ∨ weights.foldl Double.max start ∈ weights) ∧
      ∀ w ∈ weights, w ≠ .infinite false ∧ ∀ m, w = .finite false m → m.units ≤ b := by
  induction weights generalizing start a with
  | nil => exact ⟨a, hstart, Nat.le_refl _, Or.inl rfl, by simp⟩
  | cons w weights ih =>
    rw [List.foldl_cons] at hfinite ⊢
    have hw : w ≠ .infinite false := by
      rintro rfl
      obtain ⟨s, m, rfl, _⟩ := hstart
      have hmax : (Double.finite s m).max (.infinite false) = .infinite false := rfl
      rw [hmax, foldl_max_infinite] at hfinite
      cases hfinite
    obtain ⟨b, hb, hab, hone, hbound⟩ := counts_max hstart hw
    obtain ⟨c, hc, hbc, hmem, hall⟩ := ih hb hfinite
    refine ⟨c, hc, Nat.le_trans hab hbc, ?_, ?_⟩
    · rcases hmem with hmem | hmem
      · rcases hone with hone | hone
        · exact Or.inl (hmem.trans hone)
        · rw [hmem, hone]
          exact Or.inr List.mem_cons_self
      · exact Or.inr (List.mem_cons_of_mem _ hmem)
    · intro v hv
      rcases List.mem_cons.mp hv with rfl | hv
      · exact ⟨hw, fun m hm => Nat.le_trans (hbound m hm) hbc⟩
      · exact hall v hv

theorem counts_zero : Double.zero.Counts 0 := ⟨false, ⟨0, fits_zero⟩, rfl, rfl⟩

theorem fits_unitsPerOne : Fits Double.unitsPerOne := fits_twoPow (by decide)

theorem grain_dvd_unitsPerOne : grain Double.unitsPerOne ∣ Double.unitsPerOne :=
  grain_dvd_self_of_fits fits_unitsPerOne

theorem div_finite {n : Magnitude} (hn : 0 < n.units) (negative : Bool) (m : Magnitude) :
    Double.finite negative m / Double.finite false n =
      .ofUnits (negative != false) (m.units * Double.unitsPerOne) n.units := by
  rw [Double.div_eq, Double.div, if_neg (Nat.ne_of_gt hn)]

/-- A weight divided by one that is no smaller is at most one. -/
theorem counts_share_finite {m n : Magnitude} (hn : 0 < n.units) (hle : m.units ≤ n.units) :
    ∃ r, (Double.finite false m / Double.finite false n).Counts r ∧ r ≤ Double.unitsPerOne ∧
      (0 < r → 0 < m.units) ∧ (m.units = n.units → r = Double.unitsPerOne) := by
  have hbound : m.units * Double.unitsPerOne ≤ Double.unitsPerOne * n.units := by
    rw [Nat.mul_comm]
    exact Nat.mul_le_mul_left _ hle
  rw [div_finite hn]
  refine ⟨_, Double.counts_ofUnits (fits_roundUnits hn fits_unitsPerOne hbound),
    roundUnits_le hn grain_dvd_unitsPerOne hbound, ?_, ?_⟩
  · intro hpositive
    refine Nat.pos_of_ne_zero fun hzero => ?_
    rw [hzero, Nat.zero_mul, Double.roundUnits_zero hn] at hpositive
    exact Nat.lt_irrefl 0 hpositive
  · intro hsame
    rw [hsame, Nat.mul_comm]
    exact roundUnits_mul hn grain_dvd_unitsPerOne

/-- Only a negative quotient that rounds to zero is not below zero. -/
theorem counts_share_negative {m n : Magnitude} (hn : 0 < n.units)
    (hzero : Double.zero.le (Double.finite true m / Double.finite false n) = true) :
    (Double.finite true m / Double.finite false n).Counts 0 := by
  rw [div_finite hn] at hzero ⊢
  unfold Double.ofUnits at hzero ⊢
  by_cases hfits : Fits (roundUnits (m.units * Double.unitsPerOne) n.units)
  · rw [dif_pos hfits] at hzero ⊢
    have hround : roundUnits (m.units * Double.unitsPerOne) n.units = 0 := by
      simp only [Double.le, Double.compare?, Double.zero, Double.signedUnits, Bool.or_eq_true,
        beq_iff_eq, Option.some.injEq, Int.compare_eq_lt, Int.compare_eq_eq] at hzero
      simp only [Bool.true_bne, Bool.not_false] at hzero
      omega
    refine ⟨true, _, rfl, ?_⟩
    simp [Double.signedUnits, hround]
  · rw [dif_neg hfits] at hzero
    exact absurd hzero (by decide)

/-- A share is at most one, is positive only for a positive weight, and is one for the largest. -/
theorem counts_share {w largest : Double} {top : Nat} (hlargest : largest.Counts top)
    (htop : 0 < top) (hw : w ≠ .infinite false) (hle : ∀ m, w = .finite false m → m.units ≤ top)
    (hzero : Double.zero.le (w / largest) = true) :
    ∃ r, (w / largest).Counts r ∧ r ≤ Double.unitsPerOne ∧ (0 < r → Double.zero.lt w = true) ∧
      (w = largest → r = Double.unitsPerOne) := by
  obtain ⟨s, n, rfl, hn⟩ := hlargest
  obtain ⟨rfl, hs⟩ := Double.units_of_signedUnits hn
  have hsign : s = false := by
    cases s with
    | false => rfl
    | true => exact absurd (hs rfl) (Nat.ne_of_gt htop)
  subst hsign
  cases w with
  | nan =>
    have hquotient : Double.nan / Double.finite false n = .nan := rfl
    rw [hquotient] at hzero
    exact absurd hzero (by decide)
  | infinite negative =>
    have hquotient : Double.infinite negative / Double.finite false n =
      .infinite (negative != false) := rfl
    rw [hquotient] at hzero
    cases negative with
    | false => exact absurd rfl hw
    | true => exact absurd hzero (by decide)
  | finite negative m =>
    cases negative with
    | false =>
      obtain ⟨r, hr, hone, hpositive, hsame⟩ := counts_share_finite htop (hle m rfl)
      refine ⟨r, hr, hone, ?_, ?_⟩
      · intro h
        rw [Double.lt_iff counts_zero (Double.counts_finite m)]
        exact hpositive h
      · rintro ⟨rfl⟩
        exact hsame rfl
    | true =>
      refine ⟨0, counts_share_negative htop hzero, Nat.zero_le _, ?_, ?_⟩
      · exact fun h => absurd h (Nat.lt_irrefl 0)
      · rintro ⟨⟩

/-! ## The line -/

/-- The ends of the parts, in units. -/
def partEnds (start : Nat) : List Nat → List Nat
  | [] => []
  | share :: shares =>
    roundUnits (start + share) 1 :: partEnds (roundUnits (start + share) 1) shares

/-- No end of a part is above this many units: a sum of so many no longer grows. -/
def lineLimit : Nat := twoPow (Double.oneBits + 53)

theorem fits_lineLimit : Fits lineLimit := fits_twoPow (by decide)

theorem fits_roundUnits_of_le {n : Nat} (h : n ≤ lineLimit + Double.unitsPerOne) :
    roundUnits n 1 ≤ lineLimit ∧ Fits (roundUnits n 1) := by
  have hle : roundUnits n 1 ≤ lineLimit := by
    unfold lineLimit Double.unitsPerOne at *
    exact roundUnits_le_twoPow h
  exact ⟨hle, Nat.lt_of_le_of_lt hle fits_lineLimit.1,
    Nat.mod_eq_zero_of_dvd (grain_dvd_roundUnits n Nat.one_pos)⟩

/-- Each part ends at or behind its start, and is as long as its share or longer up to there. -/
theorem le_partEnd {start share : Nat} (hstart : grain start ∣ start)
    (hshare : grain share ∣ share) :
    start ≤ roundUnits (start + share) 1 ∧ share ≤ roundUnits (start + share) 1 :=
  ⟨le_roundUnits (by decide) hstart (by omega), le_roundUnits (by decide) hshare (by omega)⟩

/-- The line reaches as far as each share. -/
theorem le_lineEnd {start : Nat} {shares : List Nat} (hstart : grain start ∣ start)
    (hshares : ∀ share ∈ shares, grain share ∣ share) :
    start ≤ (partEnds start shares).getLastD start ∧
      ∀ share ∈ shares, share ≤ (partEnds start shares).getLastD start := by
  induction shares generalizing start with
  | nil => simp [partEnds]
  | cons share shares ih =>
    obtain ⟨hle, hshare⟩ := le_partEnd hstart (hshares share List.mem_cons_self)
    obtain ⟨hend, hrest⟩ := ih (grain_dvd_roundUnits (start + share) Nat.one_pos)
      fun s hs => hshares s (List.mem_cons_of_mem _ hs)
    have hlast : (partEnds start (share :: shares)).getLastD start =
        (partEnds (roundUnits (start + share) 1) shares).getLastD
          (roundUnits (start + share) 1) := by
      rw [partEnds, List.getLastD_cons]
    rw [hlast]
    refine ⟨Nat.le_trans hle hend, ?_⟩
    intro s hs
    rcases List.mem_cons.mp hs with rfl | hs
    · exact Nat.le_trans hshare hend
    · exact hrest s hs

/-- The part that holds a point of the line is not empty. -/
theorem share_pos_of_point {point start : Nat} {shares : List Nat} (hstart : grain start ∣ start)
    (habove : start ≤ point) (hbelow : point < (partEnds start shares).getLastD start) :
    ∃ share, shares[(partEnds start shares).dropLast.findIdx (point < ·)]? = some share ∧
      0 < share := by
  induction shares generalizing start with
  | nil =>
    rw [partEnds] at hbelow
    exact absurd hbelow (Nat.not_lt.mpr habove)
  | cons share shares ih =>
    have hhere (h : point < roundUnits (start + share) 1) : 0 < share := by
      refine Nat.pos_of_ne_zero ?_
      rintro rfl
      rw [Nat.add_zero, ← Nat.mul_one start, roundUnits_mul (by decide) hstart] at h
      omega
    rw [partEnds, List.getLastD_cons] at hbelow
    cases shares with
    | nil => exact ⟨share, rfl, hhere hbelow⟩
    | cons next shares =>
      rw [partEnds, List.dropLast_cons_of_ne_nil (by rw [partEnds]; exact List.cons_ne_nil _ _),
        List.findIdx_cons]
      by_cases hpoint : point < roundUnits (start + share) 1
      · simp only [hpoint, decide_true, cond_true]
        exact ⟨share, rfl, hhere hpoint⟩
      · simp only [hpoint, decide_false, cond_false, List.getElem?_cons_succ]
        exact ih (grain_dvd_roundUnits _ Nat.one_pos) (Nat.le_of_not_lt hpoint) hbelow

/-- The sums of shares are worth the ends of the parts. -/
theorem counts_runningSums {start : Double} {n : Nat} (hstart : start.Counts n)
    (hn : n ≤ lineLimit) {shares : List Double} {units : List Nat}
    (h : List.Forall₂ (fun share r => share.Counts r ∧ r ≤ Double.unitsPerOne) shares units) :
    List.Forall₂ Double.Counts (runningSums start shares) (partEnds n units) := by
  induction h generalizing start n with
  | nil => exact .nil
  | cons hshare _ ih =>
    obtain ⟨hcounts, hone⟩ := hshare
    obtain ⟨hle, hfits⟩ := fits_roundUnits_of_le (Nat.add_le_add hn hone)
    have hsum := hstart.add hcounts hfits
    exact .cons hsum (ih hsum hle)

theorem counts_getLastD {ends : List Double} {units : List Nat} {d : Double} {n : Nat}
    (h : List.Forall₂ Double.Counts ends units) (hd : d.Counts n) :
    (ends.getLastD d).Counts (units.getLastD n) := by
  induction h generalizing d n with
  | nil => exact hd
  | cons hx _ ih =>
    rw [List.getLastD_cons, List.getLastD_cons]
    exact ih hx

theorem findIdx_lt {ends : List Double} {units : List Nat} {point : Double} {p : Nat}
    (h : List.Forall₂ Double.Counts ends units) (hpoint : point.Counts p) :
    ends.findIdx point.lt = units.findIdx (p < ·) := by
  induction h with
  | nil => rfl
  | cons hx _ ih =>
    have hlt := Double.lt_iff hpoint hx
    rw [List.findIdx_cons, List.findIdx_cons, ih,
      Bool.eq_iff_iff.mpr (hlt.trans decide_eq_true_iff.symm)]

section

-- Points of the unit line are `2 ^ b` units apart.
variable {b : Nat} (hb : Double.oneBits = b + 52)

include hb

theorem unitsPerOne_eq : Double.unitsPerOne = twoPow b * twoPow 52 := by
  rw [Double.unitsPerOne, hb, twoPow_add]

/-- A point of the unit line is at least a gap below one. -/
theorem counts_unitPoint (word : UInt64) :
    ∃ u, (unitPoint word).Counts u ∧ u + twoPow b ≤ Double.unitsPerOne := by
  have hbits : (word >>> 12).toNat + 1 ≤ twoPow 52 := by
    have hword := word.toNat_lt
    have hshift : (word >>> 12).toNat = word.toNat / 2 ^ 12 := by
      rw [UInt64.toNat_shiftRight, Nat.shiftRight_eq_div_pow]
      rfl
    rw [hshift]
    change word.toNat / 2 ^ 12 + 1 ≤ 2 ^ 52
    omega
  have hone := unitsPerOne_eq hb
  have hgap : twoPow b ≤ Double.unitsPerOne := by
    rw [hone]
    exact Nat.le_mul_of_pos_right _ (twoPow_pos 52)
  have hgrid : grain (Double.unitsPerOne - twoPow b) ∣ Double.unitsPerOne - twoPow b := by
    have hlt : Double.unitsPerOne < twoPow (b + 53) := twoPow_lt (by omega)
    have hdvd : twoPow b ∣ Double.unitsPerOne := ⟨twoPow 52, hone⟩
    exact grain_dvd_of_lt (Nat.lt_of_le_of_lt (Nat.sub_le _ _) hlt)
      (Nat.dvd_sub hdvd (Nat.dvd_refl _))
  have hfits : Fits (Double.unitsPerOne - twoPow b) :=
    ⟨Nat.lt_of_le_of_lt (Nat.sub_le _ _) fits_unitsPerOne.1, Nat.mod_eq_zero_of_dvd hgrid⟩
  have hbound : (word >>> 12).toNat * Double.unitsPerOne ≤
      (Double.unitsPerOne - twoPow b) * twoPow 52 := by
    have hmul := Nat.mul_le_mul_right Double.unitsPerOne hbits
    rw [Nat.add_mul, Nat.one_mul] at hmul
    rw [Nat.sub_mul, ← hone, Nat.mul_comm Double.unitsPerOne (twoPow 52)]
    omega
  have hle := roundUnits_le (twoPow_pos 52) hgrid hbound
  refine ⟨_, Double.counts_ofUnits (fits_roundUnits (twoPow_pos 52) hfits hbound), ?_⟩
  omega

/-- A point of the unit line, stretched to a line that is at least one long, stays below the
line's end. -/
theorem point_lt_lineEnd {u lineEnd : Nat} (hu : u + twoPow b ≤ Double.unitsPerOne)
    (hlong : Double.unitsPerOne ≤ lineEnd) (hfits : Fits lineEnd) :
    roundUnits (u * lineEnd) Double.unitsPerOne < lineEnd ∧
      Fits (roundUnits (u * lineEnd) Double.unitsPerOne) := by
  have hend : lineEnd ≠ 0 := by
    have hpos := Double.unitsPerOne_pos
    omega
  have hlog : 52 ≤ lineEnd.log2 := by
    rw [Nat.le_log2 hend]
    refine Nat.le_trans (Nat.le_of_lt ?_) hlong
    exact twoPow_lt (by decide : 52 < Double.oneBits)
  have hgrain : grain lineEnd * twoPow 52 ≤ lineEnd := by
    rw [grain, ← twoPow_add, Nat.sub_add_cancel hlog]
    exact twoPow_log2_le hend
  -- The next double below the end of the line is one grain away.
  have hgrid : grain (lineEnd - grain lineEnd) ∣ lineEnd - grain lineEnd := by
    by_cases h0 : lineEnd - grain lineEnd = 0
    · rw [h0]
      exact Nat.dvd_zero _
    · refine Nat.dvd_trans (grain_dvd_grain ?_)
        (Nat.dvd_sub (grain_dvd_self_of_fits hfits) (Nat.dvd_refl _))
      rw [Nat.le_log2 hend]
      exact Nat.le_trans (Nat.log2_self_le h0) (Nat.sub_le _ _)
  have hbelow : Fits (lineEnd - grain lineEnd) :=
    ⟨Nat.lt_of_le_of_lt (Nat.sub_le _ _) hfits.1, Nat.mod_eq_zero_of_dvd hgrid⟩
  have hbound : u * lineEnd ≤ (lineEnd - grain lineEnd) * Double.unitsPerOne := by
    have hpoint := Nat.mul_le_mul_right lineEnd hu
    have hstretch : grain lineEnd * Double.unitsPerOne ≤ twoPow b * lineEnd := by
      rw [unitsPerOne_eq hb]
      calc grain lineEnd * (twoPow b * twoPow 52) = twoPow b * (grain lineEnd * twoPow 52) :=
            Nat.mul_left_comm _ _ _
        _ ≤ twoPow b * lineEnd := Nat.mul_le_mul_left _ hgrain
    rw [Nat.add_mul] at hpoint
    rw [Nat.sub_mul, Nat.mul_comm lineEnd Double.unitsPerOne]
    omega
  have hle := roundUnits_le Double.unitsPerOne_pos hgrid hbound
  have hpos := grain_pos lineEnd
  exact ⟨by omega, fits_roundUnits Double.unitsPerOne_pos hbelow hbound⟩

end

/-! ## The law -/

/-- The line of shares is at least as long as each of them. -/
theorem exists_lineEnd {shares : List Double} {units : List Nat}
    (h : List.Forall₂ (fun share r => share.Counts r ∧ r ≤ Double.unitsPerOne) shares units) :
    ((runningSums .zero shares).getLastD .zero).Counts ((partEnds 0 units).getLastD 0) ∧
      ∀ r ∈ units, r ≤ (partEnds 0 units).getLastD 0 := by
  have hgrid : ∀ r ∈ units, grain r ∣ r := by
    intro r hr
    obtain ⟨i, hi, rfl⟩ := List.getElem_of_mem hr
    exact (h.get (by rw [h.length_eq]; exact hi) hi).1.grain_dvd
  exact ⟨counts_getLastD (counts_runningSums counts_zero (Nat.zero_le _) h) counts_zero,
    (le_lineEnd (Nat.dvd_zero _) hgrid).2⟩

/-- The item at a point of the line has a positive share. -/
theorem share_pos_itemAt {shares : List Double} {units : List Nat}
    (h : List.Forall₂ (fun share r => share.Counts r ∧ r ≤ Double.unitsPerOne) shares units)
    (hone : Double.unitsPerOne ∈ units) (word : UInt64) :
    ∃ r, units[itemAt shares word]? = some r ∧ 0 < r := by
  have hgap : Double.oneBits = 1022 + 52 := by decide
  have hends := counts_runningSums counts_zero (Nat.zero_le _) h
  obtain ⟨hend, hlong⟩ := exists_lineEnd h
  obtain ⟨u, hu, hbelow⟩ := counts_unitPoint hgap word
  obtain ⟨hlt, hfits⟩ := point_lt_lineEnd hgap hbelow (hlong _ hone) hend.fits
  have hpoint := hu.mul hend hfits
  have hfind : itemAt shares word = (partEnds 0 units).dropLast.findIdx
      (roundUnits (u * (partEnds 0 units).getLastD 0) Double.unitsPerOne < ·) := by
    unfold itemAt
    refine findIdx_lt ?_ hpoint
    rw [List.dropLast_eq_take, List.dropLast_eq_take, hends.length_eq]
    exact List.forall₂_take _ hends
  rw [hfind]
  exact share_pos_of_point (Nat.dvd_zero _) (Nat.zero_le _) hlt

theorem exists_forall₂ {α β : Type} {R : α → β → Prop} {xs : List α}
    (h : ∀ x ∈ xs, ∃ y, R x y) : ∃ ys, List.Forall₂ R xs ys := by
  induction xs with
  | nil => exact ⟨[], .nil⟩
  | cons x xs ih =>
    obtain ⟨y, hy⟩ := h x List.mem_cons_self
    obtain ⟨ys, hys⟩ := ih fun z hz => h z (List.mem_cons_of_mem x hz)
    exact ⟨y :: ys, .cons hy hys⟩

/-- Shares are worth at most one, and one of them is worth one; a share is positive only for a
positive weight. -/
theorem exists_units {weights shares : List Double} (h : shares? weights = some shares) :
    ∃ units, List.Forall₂ (fun share r => share.Counts r ∧ r ≤ Double.unitsPerOne) shares units ∧
      List.Forall₂ (fun w r => 0 < r → Double.zero.lt w = true) weights units ∧
      Double.unitsPerOne ∈ units := by
  unfold shares? at h
  dsimp only at h
  split_ifs at h with hlargest hall
  cases h
  rw [Bool.and_eq_true] at hlargest
  obtain ⟨top, htop, _, hmem, hbound⟩ := counts_foldl_max counts_zero hlargest.2
  have hpos : 0 < top := (Double.lt_iff counts_zero htop).mp hlargest.1
  have hshare : ∀ w ∈ weights, ∃ r, (w / weights.foldl Double.max .zero).Counts r ∧
      r ≤ Double.unitsPerOne ∧ (0 < r → Double.zero.lt w = true) ∧
      (w = weights.foldl Double.max .zero → r = Double.unitsPerOne) := by
    intro w hw
    obtain ⟨hinfinite, hle⟩ := hbound w hw
    exact counts_share htop hpos hinfinite hle
      (List.all_eq_true.mp hall _ (List.mem_map_of_mem hw))
  obtain ⟨units, hunits⟩ := exists_forall₂ hshare
  have hlargestMem : weights.foldl Double.max .zero ∈ weights := by
    rcases hmem with hmem | hmem
    · rw [hmem] at hlargest
      exact absurd hlargest.1 (by decide)
    · exact hmem
  refine ⟨units, ?_, hunits.imp fun _ _ h => h.2.2.1, ?_⟩
  · rw [List.forall₂_map_left_iff]
    exact hunits.imp fun _ _ h => ⟨h.1, h.2.1⟩
  · obtain ⟨i, hi, hlast⟩ := List.getElem_of_mem hlargestMem
    have hi' : i < units.length := hunits.length_eq ▸ hi
    rw [← (hunits.get hi hi').2.2.2 hlast]
    exact List.getElem_mem hi'

/-! ## Picks -/

section Picks

variable {σ : Type} [WordSource σ] {weights shares : List Double} {source : σ}

theorem pickWeighted_of_none (h : shares? weights = none) :
    pickWeighted weights source = (none, source) := by
  rw [pickWeighted, h]

theorem pickWeighted_of_some (h : shares? weights = some shares) :
    pickWeighted weights source =
      (some (itemAt shares (WordSource.word64 source).1), (WordSource.word64 source).2) := by
  rw [pickWeighted, h]

theorem pickWeighted_eq_none_iff :
    (pickWeighted weights source).1 = none ↔ shares? weights = none := by
  cases h : shares? weights with
  | none => simp [pickWeighted_of_none h]
  | some shares => simp [pickWeighted_of_some h]

/-- An item is picked by its point on the line. -/
theorem exists_shares_of_picked {n : Nat} (h : (pickWeighted weights source).1 = some n) :
    ∃ shares, shares? weights = some shares ∧ itemAt shares (WordSource.word64 source).1 = n := by
  cases hshares : shares? weights with
  | none =>
    rw [pickWeighted_of_none hshares] at h
    cases h
  | some shares =>
    rw [pickWeighted_of_some hshares] at h
    exact ⟨shares, rfl, Option.some.inj h⟩

/-- Only an item of positive weight is picked. -/
theorem positive_of_pickWeighted {n : Nat} (h : (pickWeighted weights source).1 = some n) :
    ∃ weight, weights[n]? = some weight ∧ Double.zero.lt weight = true := by
  obtain ⟨shares, hshares, rfl⟩ := exists_shares_of_picked h
  obtain ⟨units, hcounts, hpositive, hone⟩ := exists_units hshares
  obtain ⟨r, hr, hrpos⟩ := share_pos_itemAt hcounts hone (WordSource.word64 source).1
  obtain ⟨hi', rfl⟩ := List.getElem?_eq_some_iff.mp hr
  have hi := hpositive.length_eq ▸ hi'
  exact ⟨_, List.getElem?_eq_getElem hi, hpositive.get hi hi' hrpos⟩

end Picks

/-! ## Picks that succeed -/

theorem Double.Counts.zero_le {x : Double} {n : Nat} (h : x.Counts n) :
    Double.zero.le x = true := by
  obtain ⟨negative, m, rfl, hn⟩ := h
  simp only [Double.le, Double.compare?, Double.zero, hn, Bool.or_eq_true, beq_iff_eq,
    Option.some.injEq, Int.compare_eq_lt, Int.compare_eq_eq]
  simp only [signedUnits]
  omega

/-- The largest of some finite numbers without a sign is one more such number. -/
theorem exists_finite_foldl_max {weights : List Double}
    (hfinite : ∀ w ∈ weights, ∃ m, w = .finite false m) (start : Magnitude) :
    ∃ m, weights.foldl Double.max (.finite false start) = .finite false m := by
  induction weights generalizing start with
  | nil => exact ⟨start, rfl⟩
  | cons w weights ih =>
    obtain ⟨⟨m, rfl⟩, hrest⟩ := List.forall_mem_cons.mp hfinite
    have hmax : (Double.finite false start).max (.finite false m) =
        if (Double.finite false start).lt (.finite false m) then .finite false m
        else .finite false start := rfl
    rw [List.foldl_cons, hmax]
    split
    · exact ih hrest m
    · exact ih hrest start

/-- Finite weights have shares as soon as one of them is positive. -/
theorem exists_shares {weights : List Double}
    (hfinite : ∀ w ∈ weights, ∃ m, w = .finite false m)
    (hpositive : ∃ w ∈ weights, Double.zero.lt w = true) :
    ∃ shares, shares? weights = some shares := by
  obtain ⟨n, hlargest⟩ := exists_finite_foldl_max hfinite ⟨0, fits_zero⟩
  have hzero : Double.finite false ⟨0, fits_zero⟩ = Double.zero := rfl
  rw [hzero] at hlargest
  have hbound : ∀ m, Double.finite false m ∈ weights → m.units ≤ n.units := by
    have hisFinite : (weights.foldl Double.max .zero).isFinite = true := by rw [hlargest]; rfl
    obtain ⟨top, htop, _, _, hall⟩ := counts_foldl_max counts_zero hisFinite
    rw [hlargest] at htop
    obtain ⟨_, _, ⟨⟩, hunits⟩ := htop
    rw [(Double.units_of_signedUnits hunits).1]
    exact fun m hm => (hall _ hm).2 m rfl
  have hpos : 0 < n.units := by
    obtain ⟨w, hw, hlt⟩ := hpositive
    obtain ⟨m, rfl⟩ := hfinite w hw
    exact Nat.lt_of_lt_of_le ((Double.lt_iff counts_zero (Double.counts_finite m)).mp hlt)
      (hbound m hw)
  have hlt : Double.zero.lt (.finite false n) = true :=
    (Double.lt_iff counts_zero (Double.counts_finite n)).mpr hpos
  have hshares : (weights.map (· / Double.finite false n)).all Double.zero.le = true := by
    simp only [List.all_map, List.all_eq_true, Function.comp_apply]
    intro w hw
    obtain ⟨m, rfl⟩ := hfinite w hw
    obtain ⟨r, hr, _⟩ := counts_share_finite hpos (hbound m hw)
    exact hr.zero_le
  refine ⟨weights.map (· / Double.finite false n), ?_⟩
  unfold shares?
  simp only [hlargest, hlt, hshares, Double.isFinite, Bool.and_self, if_true]

/-- Among finite weights one is picked as soon as one is positive. -/
theorem exists_pickWeighted {σ : Type} [WordSource σ] {weights : List Double}
    (hfinite : ∀ w ∈ weights, ∃ m, w = .finite false m)
    (hpositive : ∃ w ∈ weights, Double.zero.lt w = true) (source : σ) :
    ∃ n, (pickWeighted weights source).1 = some n := by
  obtain ⟨shares, hshares⟩ := exists_shares hfinite hpositive
  rw [pickWeighted_of_some hshares]
  exact ⟨_, rfl⟩

end TextGrammar
