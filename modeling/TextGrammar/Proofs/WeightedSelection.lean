-- The law of weighted choice, for any weights at all: when something is picked, that it weighs
-- something, and how many words it takes. The end of the line is where a scale for the points is
-- looked for, and the first one tried will do.
import TextGrammar.Proofs.WeightedPick

namespace TextGrammar

namespace Double

/-! ## Numbers that are not negative -/

/-- A finite number that is not below zero is worth some units. -/
theorem exists_counts {x : Double} (hfinite : x.isFinite = true) (hle : zero.le x = true) :
    ∃ n, x.Counts n := by
  cases x with
  | nan => cases hfinite
  | infinite negative => cases hfinite
  | finite negative m =>
    cases negative with
    | false => exact ⟨_, counts_finite m⟩
    | true =>
      refine ⟨0, true, m, rfl, ?_⟩
      simp only [le, compare?, zero, signedUnits, Bool.or_eq_true, beq_iff_eq, Option.some.injEq,
        Int.compare_eq_lt, Int.compare_eq_eq] at hle ⊢
      omega

theorem Counts.isFinite {x : Double} {n : Nat} (h : x.Counts n) : x.isFinite = true := by
  obtain ⟨_, _, rfl, _⟩ := h
  rfl

theorem le_iff {x y : Double} {a b : Nat} (hx : x.Counts a) (hy : y.Counts b) :
    x.le y = true ↔ a ≤ b := by
  obtain ⟨_, m, rfl, ha⟩ := hx
  obtain ⟨_, n, rfl, hb⟩ := hy
  simp only [le, compare?, ha, hb, Bool.or_eq_true, beq_iff_eq, Option.some.injEq,
    Int.compare_eq_lt, Int.compare_eq_eq]
  omega

theorem numEq_iff {x y : Double} {a b : Nat} (hx : x.Counts a) (hy : y.Counts b) :
    x.numEq y = true ↔ a = b := by
  obtain ⟨_, m, rfl, ha⟩ := hx
  obtain ⟨_, n, rfl, hb⟩ := hy
  simp only [numEq, compare?, ha, hb, beq_iff_eq, Option.some.injEq, Int.compare_eq_eq]
  omega

/-- A finite number above zero has no sign. -/
theorem exists_of_zero_lt {x : Double} (hlt : zero.lt x = true) (hfinite : x.isFinite = true) :
    ∃ m, x = .finite false m ∧ 0 < m.units := by
  cases x with
  | nan => cases hfinite
  | infinite negative => cases hfinite
  | finite negative m =>
    simp only [lt, compare?, zero, beq_iff_eq, Option.some.injEq, Int.compare_eq_lt] at hlt
    cases negative with
    | false =>
      simp only [signedUnits] at hlt
      exact ⟨m, rfl, by omega⟩
    | true =>
      simp only [signedUnits] at hlt
      omega

/-- The larger of two numbers is one of them. -/
theorem max_eq_or (x y : Double) : x.max y = x ∨ x.max y = y := by
  cases x with
  | nan => exact Or.inr rfl
  | infinite s =>
    cases y with
    | nan => exact Or.inl rfl
    | _ => exact (ite_eq_or_eq _ _ _).symm
  | finite s m =>
    cases y with
    | nan => exact Or.inl rfl
    | _ => exact (ite_eq_or_eq _ _ _).symm

theorem isFinite_foldl_max {weights : List Double} {start : Double}
    (hstart : start.isFinite = true) (hweights : ∀ w ∈ weights, w.isFinite = true) :
    (weights.foldl Double.max start).isFinite = true := by
  induction weights generalizing start with
  | nil => exact hstart
  | cons w weights ih =>
    obtain ⟨hw, hrest⟩ := List.forall_mem_cons.mp hweights
    refine ih ?_ hrest
    rcases max_eq_or start w with h | h
    · rw [h]
      exact hstart
    · rw [h]
      exact hw

end Double

/-! ## Weights that have shares -/

/-- The largest of the weights, and of zero. -/
def largestWeight (weights : List Double) : Double := weights.foldl Double.max .zero

theorem shares?_eq_none_iff {weights : List Double} :
    shares? weights = none ↔ Double.zero.lt (largestWeight weights) = false ∨
      (largestWeight weights).isFinite = false ∨
      ∃ w ∈ weights, Double.zero.le (w / largestWeight weights) = false := by
  have hshares : shares? weights =
      if Double.zero.lt (largestWeight weights) && (largestWeight weights).isFinite then
        if (weights.map (· / largestWeight weights)).all Double.zero.le then
          some (weights.map (· / largestWeight weights))
        else none
      else none := rfl
  rw [hshares]
  cases Double.zero.lt (largestWeight weights) with
  | false => simp
  | true =>
    cases (largestWeight weights).isFinite with
    | false => simp
    | true => simp

/-- What is not a number, or infinite, is no weight. -/
theorem shares?_of_not_finite {weights : List Double} {w : Double} (hmem : w ∈ weights)
    (hw : w.isFinite = false) : shares? weights = none := by
  rw [shares?_eq_none_iff]
  by_contra hall
  simp only [not_or, not_exists, not_and, Bool.not_eq_false] at hall
  obtain ⟨hlt, hfinite, hshares⟩ := hall
  obtain ⟨_, _, _, _, hbound⟩ := counts_foldl_max counts_zero hfinite
  obtain ⟨m, hlargest, _⟩ := Double.exists_of_zero_lt hlt hfinite
  have hshare := hshares w hmem
  rw [hlargest] at hshare
  cases w with
  | nan =>
    have hquotient : Double.nan / Double.finite false m = .nan := rfl
    rw [hquotient] at hshare
    exact absurd hshare (by decide)
  | infinite negative =>
    cases negative with
    | false => exact (hbound _ hmem).1 rfl
    | true =>
      have hquotient : Double.infinite true / Double.finite false m = .infinite true := rfl
      rw [hquotient] at hshare
      exact absurd hshare (by decide)
  | finite negative m => cases hw

/-- A finite weight that is not negative has a share of no less than zero. -/
theorem zero_le_share {w largest : Double} {n top : Nat} (hw : w.Counts n)
    (hlargest : largest.Counts top) (htop : 0 < top) (hle : n ≤ top) :
    Double.zero.le (w / largest) = true := by
  obtain ⟨m, rfl, hm⟩ := Double.exists_of_zero_lt
    ((Double.lt_iff counts_zero hlargest).mpr htop) hlargest.isFinite
  obtain ⟨negative, k, rfl, hk⟩ := hw
  obtain ⟨hunits, hsign⟩ := Double.units_of_signedUnits hk
  have htop : m.units = top := by
    obtain ⟨_, _, ⟨⟩, hlargest⟩ := hlargest
    exact (Double.units_of_signedUnits hlargest).1
  cases negative with
  | false =>
    obtain ⟨r, hr, _⟩ := counts_share_finite hm (by rw [hunits, htop]; exact hle)
    exact hr.zero_le
  | true =>
    rw [div_finite hm, hunits, hsign rfl, Nat.zero_mul]
    exact (Double.counts_ofUnits_zero _ hm).zero_le

/-- Finite weights that are not negative are bounded by the largest, which is one of them or zero. -/
theorem exists_largest {weights : List Double}
    (h : ∀ w ∈ weights, w.isFinite = true ∧ Double.zero.le w = true) :
    ∃ top, (largestWeight weights).Counts top ∧
      (largestWeight weights = .zero ∨ largestWeight weights ∈ weights) ∧
      ∀ w ∈ weights, ∃ n, w.Counts n ∧ n ≤ top := by
  have hfinite : (largestWeight weights).isFinite = true :=
    Double.isFinite_foldl_max rfl fun w hw => (h w hw).1
  obtain ⟨top, htop, _, hone, hbound⟩ := counts_foldl_max counts_zero hfinite
  refine ⟨top, htop, hone, fun w hw => ?_⟩
  obtain ⟨n, negative, m, rfl, hn⟩ := Double.exists_counts (h w hw).1 (h w hw).2
  obtain ⟨hunits, hsign⟩ := Double.units_of_signedUnits hn
  refine ⟨n, ⟨negative, m, rfl, hn⟩, ?_⟩
  cases negative with
  | false => exact hunits ▸ (hbound _ hw).2 m rfl
  | true => exact hsign rfl ▸ Nat.zero_le top

/-- Finite weights that are not negative have no shares only when all of them are zero. -/
theorem shares?_eq_none_iff_zero {weights : List Double}
    (h : ∀ w ∈ weights, w.isFinite = true ∧ Double.zero.le w = true) :
    shares? weights = none ↔ ∀ w ∈ weights, w.numEq .zero = true := by
  obtain ⟨top, htop, hone, hle⟩ := exists_largest h
  have hlt : Double.zero.lt (largestWeight weights) = false ↔ top = 0 := by
    rw [← Bool.not_eq_true, Double.lt_iff counts_zero htop]
    omega
  constructor
  · intro hnone w hw
    obtain ⟨n, hn, hnle⟩ := hle w hw
    rw [Double.numEq_iff hn counts_zero]
    by_contra hpos
    rcases shares?_eq_none_iff.mp hnone with hzero | hinfinite | ⟨v, hv, hshare⟩
    · rw [hlt] at hzero
      omega
    · rw [htop.isFinite] at hinfinite
      cases hinfinite
    · obtain ⟨k, hk, hkle⟩ := hle v hv
      rw [zero_le_share hk htop (by omega) hkle] at hshare
      cases hshare
  · intro hall
    refine shares?_eq_none_iff.mpr (Or.inl (hlt.mpr ?_))
    rcases hone with hone | hone
    · rw [hone] at htop
      exact (Double.numEq_iff htop counts_zero).mp rfl
    · exact (Double.numEq_iff htop counts_zero).mp (hall _ hone)

/-! ## The scale of the points -/

/-- Where the line ends on which each share has its part. -/
def lineEnd (shares : List Double) : Double := (runningSums .zero shares).getLastD .zero

/-- The greatest point of the unit line. -/
def lastPoint : Double := unitPoint 0xFFFFFFFFFFFFFFFF

/-- From one scale to another that is small enough: while the greatest point, stretched by the
scale, reaches the end of the line, the scale is made smaller. -/
inductive Settles (smaller : Double → Double) (reach : Double) : Double → Double → Prop
  | here {scale : Double} : reach.le (lastPoint * scale) = false →
    Settles smaller reach scale scale
  | smaller {scale last : Double} : reach.le (lastPoint * scale) = true →
    Settles smaller reach (smaller scale) last → Settles smaller reach scale last

/-- The greatest point, and so every point, stays below the end of the line, for the line is at
least one long. -/
theorem lastPoint_lt_lineEnd {weights shares : List Double} (h : shares? weights = some shares) :
    (lineEnd shares).le (lastPoint * lineEnd shares) = false := by
  have hgap : Double.oneBits = 1022 + 52 := by decide
  obtain ⟨units, hcounts, _, hone⟩ := exists_units h
  obtain ⟨hend, hlong⟩ := exists_lineEnd hcounts
  obtain ⟨u, hu, hbelow⟩ := counts_unitPoint hgap 0xFFFFFFFFFFFFFFFF
  obtain ⟨hlt, hfits⟩ := point_lt_lineEnd hgap hbelow (hlong _ hone) hend.fits
  rw [← Bool.not_eq_true, lineEnd, lastPoint, Double.le_iff hend (hu.mul hend hfits)]
  omega

/-- The end of the line is the scale that is settled on. -/
theorem settles_iff {weights shares : List Double} (h : shares? weights = some shares)
    (smaller : Double → Double) (scale : Double) :
    Settles smaller (lineEnd shares) (lineEnd shares) scale ↔ scale = lineEnd shares := by
  constructor
  · intro hsettles
    cases hsettles with
    | here _ => rfl
    | smaller hreaches _ =>
      rw [lastPoint_lt_lineEnd h] at hreaches
      cases hreaches
  · rintro rfl
    exact .here (lastPoint_lt_lineEnd h)

/-! ## The law -/

/-- Only an item of positive weight is picked, whatever the weights and the words are. When nothing
is picked, no word is taken; else one word is, and the item picked is one of those given and weighs
more than zero. Among finite weights that are not negative nothing is picked exactly when there are
none, or all of them are zero. Among others, nothing is picked exactly when the largest is not
positive or not finite, or a weight divided by the largest is not at least zero; so it is whenever a
weight is not a number or infinite. The point that picks is stretched by the scale that is settled
on, in whatever steps scales are made smaller. -/
theorem only_positive_weights_are_picked {σ : Type} [WordSource σ] (weights : List Double)
    (source : σ) :
    let picked := (pickWeighted weights source).1
    let left := (pickWeighted weights source).2
    (picked = none → left = source) ∧
    (∀ n, picked = some n → left = (WordSource.word64 source).2 ∧
      ∃ w, weights[n]? = some w ∧ Double.zero.lt w = true) ∧
    ((∀ w ∈ weights, w.isFinite = true ∧ Double.zero.le w = true) →
      (picked = none ↔ weights = [] ∨ ∀ w ∈ weights, w.numEq .zero = true)) ∧
    (picked = none ↔ Double.zero.lt (largestWeight weights) = false ∨
      (largestWeight weights).isFinite = false ∨
      ∃ w ∈ weights, Double.zero.le (w / largestWeight weights) = false) ∧
    (∀ w ∈ weights, w.isFinite = false → picked = none) ∧
    ∀ n, picked = some n → ∀ smaller, ∃ shares scale, shares? weights = some shares ∧
      Settles smaller (lineEnd shares) (lineEnd shares) scale ∧
      n = (runningSums .zero shares).dropLast.findIdx
        (unitPoint (WordSource.word64 source).1 * scale).lt := by
  intro picked left
  have hnone : picked = none ↔ shares? weights = none := pickWeighted_eq_none_iff
  refine ⟨fun h => ?_, fun n hn => ⟨?_, positive_of_pickWeighted hn⟩, fun hweights => ?_,
    hnone.trans shares?_eq_none_iff,
    fun w hw hfinite => hnone.mpr (shares?_of_not_finite hw hfinite), fun n hn smaller => ?_⟩
  · simp only [left, pickWeighted_of_none (hnone.mp h)]
  · obtain ⟨shares, hshares, -⟩ := exists_shares_of_picked hn
    simp only [left, pickWeighted_of_some hshares]
  · rw [hnone, shares?_eq_none_iff_zero hweights]
    refine ⟨Or.inr, ?_⟩
    rintro (rfl | hzero)
    · exact fun w hw => absurd hw List.not_mem_nil
    · exact hzero
  · obtain ⟨shares, hshares, rfl⟩ := exists_shares_of_picked hn
    exact ⟨shares, lineEnd shares, hshares, (settles_iff hshares smaller _).mpr rfl, rfl⟩

/-- Two prizes among blanks, one of which is the negative zero. -/
def prizes : List Double := [.zero, .one, .finite true ⟨0, fits_zero⟩, .one, .zero]

/-- The law at the prizes: the last point of the line picks the second of them, not the blank behind
it, and the law tells that they are not all blanks. -/
theorem last_point_picks_the_second_prize :
    (∀ w ∈ prizes, w.isFinite = true ∧ Double.zero.le w = true) ∧
    pickWeighted prizes (⟨[0xFFFFFFFFFFFFFFFF], 0⟩ : WordList) = (some 3, ⟨[], 1⟩) ∧
    ¬(prizes = [] ∨ ∀ w ∈ prizes, w.numEq .zero = true) := by
  have hweights : ∀ w ∈ prizes, w.isFinite = true ∧ Double.zero.le w = true := by decide +kernel
  have hpick : pickWeighted prizes (⟨[0xFFFFFFFFFFFFFFFF], 0⟩ : WordList) =
      (some 3, ⟨[], 1⟩) := by decide +kernel
  obtain ⟨_, _, hblanks, _⟩ :=
    only_positive_weights_are_picked prizes (⟨[0xFFFFFFFFFFFFFFFF], 0⟩ : WordList)
  refine ⟨hweights, hpick, fun hall => ?_⟩
  have hnone := (hblanks hweights).mpr hall
  rw [hpick] at hnone
  cases hnone

end TextGrammar
