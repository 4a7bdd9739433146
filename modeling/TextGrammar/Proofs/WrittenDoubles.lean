-- Doubles as the object notation writes them. A whole number gets a point and a zero behind its
-- shortest digits, so these must not have a point of their own: seventeen digits tell a double
-- from all others, and a number with fewer digits in front of its point is kept whole.
import Mathlib.Data.List.TakeDrop
import Mathlib.Data.List.TakeWhile
import TextGrammar.Proofs.DecimalText
import TextGrammar.Ron.Token
import TextGrammar.Ron.Value

namespace TextGrammar

/-! ## Rounding what lies near a double -/

/-- What lies less than half a unit away from a whole number is rounded to it. -/
theorem divNearest_of_near {num den k : Nat} (hbelow : 2 * (k * den) < 2 * num + den)
    (habove : 2 * num < 2 * (k * den) + den) : divNearest num den = k := by
  have hden : 0 < den := by omega
  have hsplit := Nat.div_add_mod num den
  have hrest := Nat.mod_lt num hden
  unfold divNearest
  dsimp only
  rw [Nat.mul_comm] at hsplit
  by_cases hle : k * den ≤ num
  · have hquotient : num / den = k := by
      refine Nat.div_eq_of_lt_le hle ?_
      rw [Nat.succ_mul]
      omega
    rw [hquotient] at hsplit ⊢
    rw [if_pos]
    simp only [Bool.or_eq_true, decide_eq_true_eq]
    omega
  · obtain ⟨i, rfl⟩ : ∃ i, k = i + 1 := Nat.exists_eq_succ_of_ne_zero (by rintro rfl; omega)
    rw [Nat.add_mul, Nat.one_mul] at hle hbelow habove
    have hquotient : num / den = i := by
      refine Nat.div_eq_of_lt_le (by omega) ?_
      rw [Nat.succ_mul]
      omega
    rw [hquotient] at hsplit ⊢
    rw [if_neg]
    simp only [Bool.or_eq_true, decide_eq_true_eq, Bool.and_eq_true, beq_iff_eq, not_or, not_and]
    omega

/-- A whole number less than half a step away from a multiple of its own step is rounded to it. -/
theorem roundUnits_of_near {n u : Nat} (hdvd : grain n ∣ u) (hbelow : 2 * u < 2 * n + grain n)
    (habove : 2 * n < 2 * u + grain n) : roundUnits n 1 = u := by
  obtain ⟨k, rfl⟩ := hdvd
  rw [Nat.mul_comm (grain n)] at hbelow habove
  unfold roundUnits
  dsimp only
  rw [Nat.div_one, Nat.one_mul, divNearest_of_near hbelow habove, Nat.mul_comm]

theorem grain_of_bounds {n b : Nat} (hlow : twoPow (b + 52) ≤ n)
    (hhigh : n < 2 * twoPow (b + 52)) : grain n = twoPow b := by
  have hne : n ≠ 0 := Nat.ne_of_gt (Nat.lt_of_lt_of_le (twoPow_pos _) hlow)
  have hdouble : 2 * twoPow (b + 52) = 2 ^ (b + 52 + 1) :=
    (Nat.mul_comm _ _).trans (twoPow_add _ 1).symm
  have hlog : n.log2 = b + 52 := (Nat.log2_eq_iff hne).mpr ⟨hlow, hdouble ▸ hhigh⟩
  rw [grain, hlog, Nat.add_sub_cancel]

/-- What lies so near a double that seventeen digits cannot tell them apart is rounded to it. Just
below a power of two the steps are half as long, and still long enough. -/
theorem roundUnits_of_seventeen {u n : Nat} (hdvd : grain u ∣ u) (hlarge : twoPow 53 ≤ u)
    (hbelow : 2 * 10 ^ 16 * u ≤ u + 2 * 10 ^ 16 * n)
    (habove : 2 * 10 ^ 16 * n ≤ u + 2 * 10 ^ 16 * u) : roundUnits n 1 = u := by
  have hu0 : u ≠ 0 := Nat.ne_of_gt (Nat.lt_of_lt_of_le (twoPow_pos _) hlarge)
  obtain ⟨b, hb⟩ : ∃ b, u.log2 = b + 1 + 52 :=
    Nat.exists_eq_add_of_le' ((Nat.le_log2 hu0).mpr hlarge)
  have hhalf : twoPow (b + 1) = 2 * twoPow b := (twoPow_add b 1).trans (Nat.mul_comm _ _)
  have h52 : twoPow (b + 52) = 2 ^ 52 * twoPow b := (twoPow_add b 52).trans (Nat.mul_comm _ _)
  have h53 : twoPow (b + 1 + 52) = 2 ^ 52 * twoPow (b + 1) :=
    (twoPow_add (b + 1) 52).trans (Nat.mul_comm _ _)
  have hlow : twoPow (b + 1 + 52) ≤ u := by
    rw [← hb]
    exact twoPow_log2_le hu0
  have hhigh : u < 2 * twoPow (b + 1 + 52) := by
    have hlt := lt_twoPow_log2 u
    rwa [hb, twoPow_add _ 1, Nat.mul_comm] at hlt
  have hpos := twoPow_pos b
  rw [grain_of_bounds hlow hhigh, hhalf] at hdvd
  obtain ⟨j, hj⟩ := hdvd
  -- The double is a whole number of steps, from `2 ^ 52` of them to fewer than twice as many.
  have hsteps : j < 2 ^ 53 := by
    refine Nat.lt_of_mul_lt_mul_left (a := 2 * twoPow b) ?_
    omega
  have hlast : u + 2 * twoPow b ≤ 2 ^ 54 * twoPow b := by
    have hmul := Nat.mul_le_mul_left (2 * twoPow b) hsteps
    rw [Nat.mul_succ] at hmul
    omega
  by_cases hn : twoPow (b + 1 + 52) ≤ n
  · have hstep : grain n = 2 * twoPow b := by
      rw [← hhalf]
      refine grain_of_bounds hn ?_
      omega
    refine roundUnits_of_near (hstep ▸ ⟨j, hj⟩) ?_ ?_ <;> omega
  · have hstep : grain n = twoPow b := by
      refine grain_of_bounds ?_ ?_ <;> omega
    -- The next double up is too far away.
    have hfirst : j ≤ 2 ^ 52 := by
      refine Nat.le_of_lt_succ (Nat.lt_of_not_le fun hmore => ?_)
      have hmul := Nat.mul_le_mul_left (2 * twoPow b) hmore
      rw [Nat.mul_succ] at hmul
      omega
    have hmul := Nat.mul_le_mul_left (2 * twoPow b) hfirst
    refine roundUnits_of_near (hstep ▸ ⟨2 * j, by rw [hj]; ac_rfl⟩) ?_ ?_ <;> omega

/-- A ratio is rounded by its value alone. -/
theorem divNearest_mul_right {num den k : Nat} (hk : 0 < k) :
    divNearest (num * k) (den * k) = divNearest num den := by
  have hrest : 2 * (num % den * k) = 2 * (num % den) * k := (Nat.mul_assoc _ _ _).symm
  unfold divNearest
  dsimp only
  rw [Nat.mul_div_mul_right _ _ hk, Nat.mul_mod_mul_right, hrest]
  have hhalf : (2 * (num % den) * k == den * k) = (2 * (num % den) == den) := by
    rw [Bool.eq_iff_iff, beq_iff_eq, beq_iff_eq, Nat.mul_right_cancel_iff hk]
  rw [hhalf]
  simp only [Nat.mul_lt_mul_right hk]

theorem roundUnits_mul_right {num den k : Nat} (hk : 0 < k) :
    roundUnits (num * k) (den * k) = roundUnits num den := by
  unfold roundUnits
  dsimp only
  rw [Nat.mul_div_mul_right _ _ hk, Nat.mul_right_comm, divNearest_mul_right hk]

namespace Double

variable {negative : Bool} {m : Magnitude}

/-! ## Whole numbers -/

theorem ofScientific_natCast {digits power : Nat} (h0 : digits ≠ 0)
    (hlimit : digitCount (digits * 10 ^ power) ≤ 400) :
    ofScientific negative digits power =
      ofUnits negative (digits * 10 ^ power * unitsPerOne) 1 := by
  have hne : digits * 10 ^ power ≠ 0 :=
    Nat.mul_ne_zero h0 (Nat.ne_of_gt (Nat.pow_pos (by decide)))
  have hbound : ((spellNat (digits * 10 ^ power)).length : Int) ≤ 400 :=
    Int.ofNat_le.mpr hlimit
  have hlow : ¬(0 + ((spellNat (digits * 10 ^ power)).length : Int) < -powerLimit) := by
    rw [powerLimit]
    omega
  have hhigh : ¬(powerLimit < 0 + ((spellNat (digits * 10 ^ power)).length : Int)) := by
    rw [powerLimit]
    omega
  rw [← ofScientific_mul_ten_pow]
  unfold ofScientific
  dsimp only
  simp only [hne, hlow, hhigh, decide_false, Bool.or_self, Bool.false_eq_true, if_false,
    Int.le_refl, if_true, Int.toNat_zero, Nat.pow_eq, Nat.pow_zero, Nat.mul_one]

/-! ## The power of the shortest digits -/

theorem mem_neighbours {p k : Nat} (h : k = m.units / (unitsPerOne * 10 ^ p) ∨
    k = m.units / (unitsPerOne * 10 ^ p) + 1) : ⟨k, p⟩ ∈ neighbours m p := by
  have hnonneg : ¬((p : Int) < 0) := by omega
  unfold neighbours
  simp only [hnonneg, if_false, Int.toNat_natCast, Nat.pow_eq]
  split <;> rcases h with rfl | rfl <;> simp

theorem power_of_mem_neighbours {power : Int} {s : Scientific} (h : s ∈ neighbours m power) :
    s.power = power := by
  unfold neighbours at h
  generalize (if power < 0 then m.units * Nat.pow 10 (-power).toNat else m.units) = num at h
  generalize (if power < 0 then unitsPerOne else unitsPerOne * Nat.pow 10 power.toNat) = den at h
  dsimp only at h
  split at h <;> simp only [List.mem_cons, List.not_mem_nil, or_false] at h <;>
    rcases h with rfl | rfl <;> rfl

theorem digitCount_le {n p : Nat} (hp : 0 < p) (h : n < 10 ^ p) : digitCount n ≤ p :=
  length_spellNat_le hp h

/-- No double has more than 309 digits in front of its point. -/
theorem digitCount_whole_le {n : Nat} (h : n * unitsPerOne < 2 * twoPow unitBits) :
    digitCount n ≤ 400 := by
  refine digitCount_le (by decide) ?_
  have hbound : 2 * twoPow unitBits ≤ 10 ^ 400 * unitsPerOne := by decide +kernel
  exact Nat.lt_of_mul_lt_mul_right (Nat.lt_of_lt_of_le h hbound)

/-- A number that shares its first seventeen digits with a whole double reads back as it. -/
theorem readsAs_of_near {p k : Nat} (hlarge : unitsPerOne ≤ m.units)
    (hbelow : 2 * 10 ^ 16 * m.units ≤ m.units + 2 * 10 ^ 16 * (k * 10 ^ p * unitsPerOne))
    (habove : 2 * 10 ^ 16 * (k * 10 ^ p * unitsPerOne) ≤ m.units + 2 * 10 ^ 16 * m.units) :
    readsAs m ⟨k, p⟩ = true := by
  have hpos := unitsPerOne_pos
  have hk : k ≠ 0 := by
    rintro rfl
    omega
  have hcount : digitCount (k * 10 ^ p) ≤ 400 := by
    have hfits := m.fits.1
    refine digitCount_whole_le ?_
    omega
  have hround : roundUnits (k * 10 ^ p * unitsPerOne) 1 = m.units :=
    roundUnits_of_seventeen (grain_dvd_self_of_fits m.fits)
      (Nat.le_trans (by decide +kernel) hlarge) hbelow habove
  rw [readsAs, ofScientific_natCast hk hcount, beq_iff_eq, ofUnits_eq_finite]
  exact hround

/-- One of the two multiples around a number is near it, when the number is a multiple itself or
the multiples lie close. -/
theorem exists_near_multiple {u d : Nat} (hd : 0 < d) (h : u % d = 0 ∨ 10 ^ 16 * d ≤ u) :
    ∃ k, (k = u / d ∨ k = u / d + 1) ∧ 2 * 10 ^ 16 * u ≤ u + 2 * 10 ^ 16 * (k * d) ∧
      2 * 10 ^ 16 * (k * d) ≤ u + 2 * 10 ^ 16 * u := by
  have hsplit := Nat.div_add_mod u d
  have hrest := Nat.mod_lt u hd
  rw [Nat.mul_comm] at hsplit
  by_cases hhalf : 2 * (u % d) < d
  · refine ⟨u / d, Or.inl rfl, ?_, ?_⟩ <;> omega
  · have hmul : (u / d + 1) * d = u / d * d + d := Nat.succ_mul _ _
    refine ⟨u / d + 1, Or.inr rfl, ?_, ?_⟩ <;> rw [hmul] <;> omega

/-- Among the multiples of the power of ten at the seventeenth digit of a whole number, or at its
last digit when it has fewer, one reads back as the number. -/
theorem exists_readsAs_whole {p : Nat} (hwhole : m.units % unitsPerOne = 0) (h0 : m.units ≠ 0)
    (hp : digitCount (m.units / unitsPerOne) - 17 = p) :
    ∃ k, (⟨k, p⟩ : Scientific) ∈ neighbours m p ∧ readsAs m ⟨k, p⟩ = true := by
  have hdvd := Nat.dvd_of_mod_eq_zero hwhole
  have hlarge := Nat.le_of_dvd (Nat.pos_of_ne_zero h0) hdvd
  have hgrid : m.units % (unitsPerOne * 10 ^ p) = 0 ∨
      10 ^ 16 * (unitsPerOne * 10 ^ p) ≤ m.units := by
    rcases Nat.eq_zero_or_pos p with rfl | hpos
    · left
      rwa [Nat.pow_zero, Nat.mul_one]
    · right
      have hdigits : 10 ^ (p + 16) ≤ m.units / unitsPerOne := by
        refine Nat.le_of_not_lt fun hlt => ?_
        have hle := digitCount_le (by omega) hlt
        omega
      rw [Nat.mul_left_comm, ← Nat.pow_add, Nat.add_comm 16]
      exact Nat.le_trans (Nat.mul_le_mul_left _ hdigits) (Nat.mul_div_le _ _)
  obtain ⟨k, hk, hbelow, habove⟩ := exists_near_multiple
    (Nat.mul_pos unitsPerOne_pos (Nat.pow_pos (by decide))) hgrid
  have hmul : k * (unitsPerOne * 10 ^ p) = k * 10 ^ p * unitsPerOne := by
    rw [Nat.mul_comm unitsPerOne, Nat.mul_assoc]
  rw [hmul] at hbelow habove
  exact ⟨k, mem_neighbours hk, readsAs_of_near hlarge hbelow habove⟩

/-- The shortest digits of a whole number have no point in them. -/
theorem shortest_power_nonneg (hwhole : m.units % unitsPerOne = 0) (h0 : m.units ≠ 0) :
    0 ≤ (shortest m).power := by
  have hlarge := Nat.le_of_dvd (Nat.pos_of_ne_zero h0) (Nat.dvd_of_mod_eq_zero hwhole)
  have htop : powerAbove m.units = digitCount (m.units / unitsPerOne) := if_pos hlarge
  generalize hdigits : digitCount (m.units / unitsPerOne) = digits at htop
  obtain ⟨k, hmem, hreads⟩ := exists_readsAs_whole hwhole h0 (p := digits - 17) (by rw [hdigits])
  have hgrid : ((digits - 17 : Nat) : Int) = (digits : Int) - (min digits 17 : Nat) := by omega
  rw [hgrid] at hmem hreads
  unfold shortest
  dsimp only
  rw [List.flatMap_map, List.find?_flatMap, htop]
  cases hfound : List.findSome? _ (List.range (mostDigits + 1)) with
  | none =>
    have hnone := List.findSome?_eq_none_iff.mp hfound (min digits 17)
      (List.mem_range.mpr (by unfold mostDigits; omega))
    exact absurd hreads (List.find?_eq_none.mp hnone _ hmem)
  | some s =>
    -- The grids before the one where the number was found have larger powers of ten.
    obtain ⟨before, n, after, hsplit, hn, hbefore⟩ := List.findSome?_eq_some_iff.mp hfound
    have hpower := power_of_mem_neighbours (List.mem_of_find?_eq_some hn)
    have hle : n ≤ min digits 17 := by
      have hrange : min digits 17 ∈ List.range (mostDigits + 1) :=
        List.mem_range.mpr (by unfold mostDigits; omega)
      rw [hsplit, List.mem_append, List.mem_cons] at hrange
      have hsorted := hsplit ▸ List.pairwise_lt_range (n := mostDigits + 1)
      rcases hrange with hin | hin | hin
      · exact absurd hreads (List.find?_eq_none.mp (hbefore _ hin) _ hmem)
      · exact Nat.le_of_eq hin.symm
      · exact Nat.le_of_lt (List.rel_of_pairwise_cons (List.pairwise_append.mp hsorted).2.1 hin)
    rw [Option.getD_some, hpower]
    omega

/-! ## Whole numbers with a point -/

theorem ofScientific_tenth (n : Nat) :
    ofScientific negative (n * 10) (-1) = ofScientific negative n 0 := by
  by_cases hn : n = 0
  · subst hn
    simp [ofScientific]
  have hne : n * 10 ≠ 0 := Nat.mul_ne_zero hn (by decide)
  have hlength : (-1 : Int) + ((spellNat (n * 10)).length : Int) = 0 + (spellNat n).length := by
    have hzero := spellNat_mul_ten_pow hn 1
    rw [Nat.pow_one] at hzero
    rw [hzero, List.length_append, List.length_replicate]
    omega
  have hround :
      ofUnits negative (n * 10 * unitsPerOne) 10 = ofUnits negative (n * unitsPerOne) 1 := by
    unfold ofUnits
    rw [Nat.mul_right_comm]
    have hscale : roundUnits (n * unitsPerOne * 10) (1 * 10) = roundUnits (n * unitsPerOne) 1 :=
      roundUnits_mul_right (by decide)
    rw [Nat.one_mul] at hscale
    simp only [hscale]
  unfold ofScientific
  dsimp only
  rw [hlength]
  simp only [hne, hn]
  rw [if_neg (by decide : ¬(0 ≤ (-1 : Int)))]
  simp only [Int.neg_neg, Int.toNat_one, Nat.pow_eq, Nat.pow_one, hround, Int.le_refl, if_true,
    Int.toNat_zero, Nat.pow_zero, Nat.mul_one]

theorem ofDecimal_append_point {cs : List Char} (h : ∀ c ∈ cs, c.isDigit = true) :
    ofDecimal negative (cs ++ ['.', '0']) 0 = ofDecimal negative cs 0 := by
  have hzero : ∀ c ∈ ['0'], c.isDigit = true := fun _ hc => isDigit_of_mem_zeros (n := 1) hc
  have hdigits : spelledNat (cs ++ ['0']) = spelledNat cs * 10 := spelledNat_append_zeros 1 cs
  rw [ofDecimal_pointed h hzero, ofDecimal_digits h, hdigits]
  exact ofScientific_tenth _

theorem isDigit_of_mem_toText {c : Char} (hwhole : m.units % unitsPerOne = 0)
    (h : c ∈ toText (.finite false m)) : c.isDigit = true := by
  unfold toText at h
  simp only [Bool.false_eq_true, if_false, List.nil_append] at h
  split_ifs at h with h0
  · exact isDigit_of_mem_zeros (n := 1) h
  · rw [Scientific.positional, if_pos (shortest_power_nonneg hwhole h0)] at h
    rcases List.mem_append.mp h with hc | hc
    · exact isDigit_of_mem_spellNat hc
    · exact isDigit_of_mem_zeros hc

/-- Digits and points have no sign in front and no power behind. -/
theorem read?_of_digits {cs : List Char} (h : ∀ c ∈ cs, c.isDigit = true ∨ c = '.') :
    read? cs = readUnsigned? false cs := by
  unfold read?
  split
  · rcases h _ List.mem_cons_self with h | h <;> exact absurd h (by decide)
  · rcases h _ List.mem_cons_self with h | h <;> exact absurd h (by decide)
  · rfl

theorem readUnsigned?_of_digits {cs : List Char} (h : ∀ c ∈ cs, c.isDigit = true ∨ c = '.') :
    readUnsigned? negative cs =
      if isDecimal cs then some (ofDecimal negative cs 0) else named? negative cs := by
  have hspan : cs.span (fun c => c != 'e' && c != 'E') = (cs, []) := by
    have hall : ∀ c ∈ cs, (c != 'e' && c != 'E') = true := by
      intro c hc
      rcases h c hc with hdigit | rfl
      · rw [Bool.and_eq_true, bne_iff_ne, bne_iff_ne]
        constructor <;> rintro rfl <;> exact absurd hdigit (by decide)
      · decide
    rw [List.span_eq_takeWhile_dropWhile, List.takeWhile_eq_self_iff.mpr hall,
      List.dropWhile_eq_nil_iff.mpr hall]
  unfold readUnsigned?
  rw [hspan]

theorem readUnsigned?_of_isDecimal {cs : List Char} (h : isDecimal cs = true) :
    readUnsigned? negative cs = some (ofDecimal negative cs 0) := by
  rw [readUnsigned?_of_digits fun c hc => mem_of_isDecimal h hc, if_pos h]

end Double

namespace Ron

open Double

variable {negative : Bool} {m : Magnitude}

/-! ## Reading what is written -/

theorem writeFloat_finite (negative : Bool) (m : Magnitude) :
    writeFloat (.finite negative m) =
      (if negative then ['-'] else []) ++ writeFloat (.finite false m) := by
  simp [writeFloat, toText]

theorem isDecimal_writeFloat (m : Magnitude) : isDecimal (writeFloat (.finite false m)) = true := by
  unfold writeFloat
  dsimp only
  split_ifs with hwhole
  · have hne : toText (.finite false m) ≠ [] := by
      intro hnil
      have hdecimal := isDecimal_toText m
      rw [hnil] at hdecimal
      exact absurd hdecimal (by decide)
    exact isDecimal_pointed hne (fun c hc => isDigit_of_mem_toText hwhole hc)
      (fun c hc => isDigit_of_mem_zeros (n := 1) hc)
  · rw [List.append_nil]
    exact isDecimal_toText m

theorem ofDecimal_writeFloat (m : Magnitude) :
    ofDecimal negative (writeFloat (.finite false m)) 0 = .finite negative m := by
  unfold writeFloat
  dsimp only
  split_ifs with hwhole
  · rw [ofDecimal_append_point fun c hc => isDigit_of_mem_toText hwhole hc]
    exact ofDecimal_toText m
  · rw [List.append_nil]
    exact ofDecimal_toText m

/-- A finite double reads back from its text. -/
theorem read?_writeFloat (negative : Bool) (m : Magnitude) :
    read? (writeFloat (.finite negative m)) = some (.finite negative m) := by
  rw [writeFloat_finite]
  have hdecimal := isDecimal_writeFloat m
  cases negative with
  | true =>
    change readUnsigned? true (writeFloat (.finite false m)) = _
    rw [readUnsigned?_of_isDecimal hdecimal, ofDecimal_writeFloat]
  | false =>
    change read? (writeFloat (.finite false m)) = _
    rw [read?_of_digits fun c hc => mem_of_isDecimal hdecimal hc,
      readUnsigned?_of_isDecimal hdecimal, ofDecimal_writeFloat]

end Ron

end TextGrammar
