-- The text of a double reads back as the double. The digits are chosen so that they read back;
-- what is left to prove is that writing them in positional notation loses neither their value nor
-- the place of the point, and that the exact digits, taken when no shorter ones serve, read back.
import Mathlib.Tactic.SplitIfs
import TextGrammar.Double.Shortest
import TextGrammar.Proofs.Numerals
import TextGrammar.Proofs.Rounding

namespace TextGrammar

/-! ## Digits and points -/

theorem ne_point_of_isDigit {c : Char} (h : c.isDigit = true) : c ≠ '.' := by
  rintro rfl
  exact absurd h (by decide)

/-- Without points a run of digits is as it was. -/
theorem filter_ne_point {cs : List Char} (h : ∀ c ∈ cs, c.isDigit = true) :
    cs.filter (· != '.') = cs := by
  rw [List.filter_eq_self]
  intro c hc
  simpa using ne_point_of_isDigit (h c hc)

theorem dropWhile_ne_point {cs : List Char} (h : ∀ c ∈ cs, c.isDigit = true) (rest : List Char) :
    (cs ++ rest).dropWhile (· != '.') = rest.dropWhile (· != '.') := by
  apply List.dropWhile_append_of_pos
  intro c hc
  simpa using ne_point_of_isDigit (h c hc)

theorem isDigit_of_mem_zeros {n : Nat} {c : Char} (h : c ∈ List.replicate n '0') :
    c.isDigit = true := by
  rw [List.eq_of_mem_replicate h]
  decide

theorem count_point_eq_zero {cs : List Char} (h : ∀ c ∈ cs, c.isDigit = true) :
    cs.count '.' = 0 := by
  rw [List.count_eq_zero]
  intro hmem
  exact absurd rfl (ne_point_of_isDigit (h _ hmem))

/-- A decimal has digits and points in it, and nothing else. -/
theorem mem_of_isDecimal {cs : List Char} {c : Char} (h : isDecimal cs = true) (hc : c ∈ cs) :
    c.isDigit = true ∨ c = '.' := by
  unfold isDecimal at h
  simp only [Bool.and_eq_true, List.all_eq_true, Bool.or_eq_true, beq_iff_eq] at h
  exact h.1.1 c hc

theorem isDecimal_digits {cs : List Char} (hne : cs ≠ []) (h : ∀ c ∈ cs, c.isDigit = true) :
    isDecimal cs = true := by
  obtain ⟨c, hc⟩ := List.exists_mem_of_ne_nil cs hne
  unfold isDecimal
  simp only [Bool.and_eq_true, List.all_eq_true, List.any_eq_true, decide_eq_true_eq]
  refine ⟨⟨?_, c, hc, h c hc⟩, ?_⟩
  · intro d hd
    simp [h d hd]
  · rw [count_point_eq_zero h]
    exact Nat.zero_le 1

theorem isDecimal_pointed {before after : List Char} (hne : before ≠ [])
    (hbefore : ∀ c ∈ before, c.isDigit = true) (hafter : ∀ c ∈ after, c.isDigit = true) :
    isDecimal (before ++ '.' :: after) = true := by
  obtain ⟨c, hc⟩ := List.exists_mem_of_ne_nil before hne
  unfold isDecimal
  simp only [Bool.and_eq_true, List.all_eq_true, List.any_eq_true, decide_eq_true_eq]
  refine ⟨⟨?_, c, List.mem_append_left _ hc, hbefore c hc⟩, ?_⟩
  · intro d hd
    rcases List.mem_append.mp hd with hd | hd
    · simp [hbefore d hd]
    · rcases List.mem_cons.mp hd with rfl | hd
      · decide
      · simp [hafter d hd]
  · have hcount := count_point_eq_zero hbefore
    have hcount' := count_point_eq_zero hafter
    rw [List.count_append, List.count_cons_self]
    omega

/-! ## Positional notation -/

theorem spellNat_mul_ten_pow {n : Nat} (hn : n ≠ 0) (p : Nat) :
    spellNat (n * 10 ^ p) = spellNat n ++ List.replicate p '0' := by
  induction p with
  | zero => simp
  | succ p ih =>
    have hpos : 0 < n * 10 ^ p := Nat.mul_pos (by omega) (Nat.pow_pos (by decide))
    have happend := Nat.toDigits_append_toDigits (by decide : 1 < 10) hpos (by decide : 0 < 10)
    rw [Nat.toDigits_zero, Nat.add_zero] at happend
    rw [List.replicate_succ', ← List.append_assoc, ← ih, spellNat, spellNat, happend, Nat.pow_succ]
    congr 1
    ac_rfl

namespace Double

variable {negative : Bool}

/-- Moving factors of ten between the digits and the power changes nothing. -/
theorem ofScientific_mul_ten_pow (n p : Nat) :
    ofScientific negative (n * 10 ^ p) 0 = ofScientific negative n p := by
  by_cases hn : n = 0
  · subst hn
    simp [ofScientific]
  have hne : n * 10 ^ p ≠ 0 := Nat.mul_ne_zero hn (Nat.ne_of_gt (Nat.pow_pos (by decide : 0 < 10)))
  have hlength : ((spellNat (n * 10 ^ p)).length : Int) = p + (spellNat n).length := by
    rw [spellNat_mul_ten_pow hn, List.length_append, List.length_replicate]
    omega
  unfold ofScientific
  dsimp only
  rw [hlength, Int.zero_add]
  simp only [hne, hn, Int.le_refl, Int.natCast_nonneg, if_true, Int.toNat_natCast, Int.toNat_zero,
    Nat.pow_eq, Nat.pow_zero, Nat.mul_one]

/-- The decimal with a point behind `before` is the number of all its digits, divided by ten for
each digit behind the point. -/
theorem ofDecimal_pointed {before after : List Char} (hbefore : ∀ c ∈ before, c.isDigit = true)
    (hafter : ∀ c ∈ after, c.isDigit = true) :
    ofDecimal negative (before ++ '.' :: after) 0 =
      ofScientific negative (spelledNat (before ++ after)) (-(after.length : Int)) := by
  have hplaces : ((before ++ '.' :: after).dropWhile (· != '.')).drop 1 = after := by
    rw [dropWhile_ne_point hbefore, List.dropWhile_cons_of_neg (by decide)]
    rfl
  have hdigits : (before ++ '.' :: after).filter (· != '.') = before ++ after := by
    rw [List.filter_append, filter_ne_point hbefore, List.filter_cons_of_neg (by decide),
      filter_ne_point hafter]
  unfold ofDecimal
  dsimp only
  rw [hplaces, hdigits, Int.zero_sub]

theorem ofDecimal_digits {cs : List Char} (h : ∀ c ∈ cs, c.isDigit = true) :
    ofDecimal negative cs 0 = ofScientific negative (spelledNat cs) 0 := by
  have hplaces : cs.dropWhile (· != '.') = [] := by
    have hdrop := dropWhile_ne_point h []
    rwa [List.append_nil] at hdrop
  unfold ofDecimal
  dsimp only
  rw [hplaces, filter_ne_point h]
  rfl

/-- Positional notation reads back. -/
theorem ofDecimal_positional (s : Scientific) :
    ofDecimal negative s.positional 0 = ofScientific negative s.digits s.power := by
  have hdigit : ∀ c ∈ spellNat s.digits, c.isDigit = true := fun c hc => isDigit_of_mem_spellNat hc
  unfold Scientific.positional
  dsimp only
  split_ifs with hwhole hinside
  · have hall : ∀ c ∈ spellNat s.digits ++ List.replicate s.power.toNat '0', c.isDigit = true := by
      intro c hc
      rcases List.mem_append.mp hc with hc | hc
      · exact hdigit c hc
      · exact isDigit_of_mem_zeros hc
    rw [ofDecimal_digits hall, spelledNat_append_zeros, spelledNat_spellNat,
      ofScientific_mul_ten_pow, Int.toNat_of_nonneg hwhole]
  · have hlength : ((spellNat s.digits).drop
        ((spellNat s.digits).length - (-s.power).toNat)).length = (-s.power).toNat := by
      rw [List.length_drop]
      omega
    rw [ofDecimal_pointed (fun c hc => hdigit c (List.mem_of_mem_take hc))
      (fun c hc => hdigit c (List.mem_of_mem_drop hc)), List.take_append_drop, spelledNat_spellNat,
      hlength]
    congr 1
    omega
  · have hzero : ∀ c ∈ ['0'], c.isDigit = true := fun _ hc => isDigit_of_mem_zeros (n := 1) hc
    have hafter : ∀ c ∈ List.replicate ((-s.power).toNat - (spellNat s.digits).length) '0' ++
        spellNat s.digits, c.isDigit = true := by
      intro c hc
      rcases List.mem_append.mp hc with hc | hc
      · exact isDigit_of_mem_zeros hc
      · exact hdigit c hc
    have hpointed := @ofDecimal_pointed negative _ _ hzero hafter
    rw [← List.append_assoc, show ['0'] = List.replicate 1 '0' from rfl,
      List.append_assoc, spelledNat_zeros_append, spelledNat_zeros_append, spelledNat_spellNat,
      List.length_append, List.length_replicate] at hpointed
    refine hpointed.trans ?_
    congr 1
    omega

theorem isDecimal_positional (s : Scientific) : isDecimal s.positional = true := by
  have hdigit : ∀ c ∈ spellNat s.digits, c.isDigit = true := fun c hc => isDigit_of_mem_spellNat hc
  have hne := spellNat_ne_nil s.digits
  unfold Scientific.positional
  dsimp only
  split_ifs with hwhole hinside
  · refine isDecimal_digits (by simp [hne]) ?_
    intro c hc
    rcases List.mem_append.mp hc with hc | hc
    · exact hdigit c hc
    · exact isDigit_of_mem_zeros hc
  · have htake : (spellNat s.digits).take ((spellNat s.digits).length - (-s.power).toNat) ≠ [] := by
      rw [Ne, List.take_eq_nil_iff]
      rintro (h | h)
      · omega
      · exact hne h
    exact isDecimal_pointed htake (fun c hc => hdigit c (List.mem_of_mem_take hc))
      (fun c hc => hdigit c (List.mem_of_mem_drop hc))
  · have hzero : ∀ c ∈ ['0'], c.isDigit = true := fun _ hc => isDigit_of_mem_zeros (n := 1) hc
    refine isDecimal_pointed (List.cons_ne_nil '0' []) hzero ?_
    intro c hc
    rcases List.mem_append.mp hc with hc | hc
    · exact isDigit_of_mem_zeros hc
    · exact hdigit c hc

/-! ## The digits that are chosen -/

theorem ofUnits_mul (m : Magnitude) {den : Nat} (hden : 0 < den) :
    ofUnits false (m.units * den) den = .finite false m := by
  have hround := roundUnits_mul hden (grain_dvd_self_of_fits m.fits)
  have hfits : Fits (roundUnits (m.units * den) den) := by
    rw [hround]
    exact m.fits
  unfold ofUnits
  rw [dif_pos hfits]
  simp only [hround]

theorem power_pos {b : Nat} (hb : 0 < b) (n : Nat) : 0 < Nat.pow b n := Nat.pow_pos hb

theorem lt_length_spellNat {n p : Nat} (hp : 0 < p) (h : 10 ^ p ≤ n) :
    p < (spellNat n).length := by
  rw [← Nat.not_le, spellNat, Nat.length_toDigits_le_iff (by decide) hp, Nat.not_lt]
  exact h

theorem length_spellNat_le {n p : Nat} (hp : 0 < p) (h : n < 10 ^ p) :
    (spellNat n).length ≤ p := by
  rw [spellNat, Nat.length_toDigits_le_iff (by decide) hp]
  exact h

/-- All digits of a magnitude are more than `10 ^ 673` and fewer than `10 ^ 1474`. -/
theorem length_exactly {m : Magnitude} (h : m.units ≠ 0) :
    673 < (spellNat (exactly m).digits).length ∧ (spellNat (exactly m).digits).length ≤ 1474 := by
  have hfive : 10 ^ 673 ≤ Nat.pow 5 oneBits := by decide +kernel
  have hbound : twoPow unitBits * Nat.pow 5 oneBits ≤ 10 ^ 1474 := by decide +kernel
  constructor
  · have hle : 10 ^ 673 ≤ (exactly m).digits :=
      Nat.le_trans hfive (Nat.le_mul_of_pos_left _ (Nat.pos_of_ne_zero h))
    exact lt_length_spellNat (by decide) hle
  · have hlt : (exactly m).digits < twoPow unitBits * Nat.pow 5 oneBits :=
      Nat.mul_lt_mul_of_pos_right m.fits.1 (power_pos (by decide) oneBits)
    exact length_spellNat_le (by decide) (Nat.lt_of_lt_of_le hlt hbound)

/-- Five and two make ten, at any power. -/
theorem mul_five_pow_mul_two_pow (k n : Nat) :
    k * Nat.pow 5 n * twoPow n = k * Nat.pow 10 n := by
  rw [Nat.mul_assoc, twoPow, Nat.pow_eq, Nat.pow_eq, ← Nat.mul_pow]
  rfl

/-- The digits of a magnitude, all of them, read back. -/
theorem ofScientific_exactly {m : Magnitude} (h : m.units ≠ 0) :
    ofScientific false (exactly m).digits (exactly m).power = .finite false m := by
  obtain ⟨hlow, hhigh⟩ := length_exactly h
  have hdigits : (exactly m).digits ≠ 0 :=
    Nat.mul_ne_zero h (Nat.ne_of_gt (power_pos (by decide) oneBits))
  have hpower : (exactly m).power = -(oneBits : Int) := rfl
  have hbits : (oneBits : Int) = 1074 := rfl
  have hlimit : powerLimit = 400 := rfl
  unfold ofScientific
  dsimp only
  rw [if_neg, if_neg, if_neg]
  · have hten : (exactly m).digits * unitsPerOne = m.units * Nat.pow 10 oneBits :=
      mul_five_pow_mul_two_pow m.units oneBits
    rw [hpower, Int.neg_neg, Int.toNat_natCast, hten]
    exact ofUnits_mul m (power_pos (by decide) oneBits)
  · omega
  · omega
  · simp only [Bool.or_eq_true, decide_eq_true_eq, not_or]
    exact ⟨hdigits, by omega⟩

theorem ofScientific_shortest {m : Magnitude} (h : m.units ≠ 0) :
    ofScientific false (shortest m).digits (shortest m).power = .finite false m := by
  unfold shortest
  dsimp only
  cases hfind : List.find? (readsAs m) _ with
  | none => exact ofScientific_exactly h
  | some s =>
    have hreads := List.find?_some hfind
    unfold readsAs at hreads
    exact eq_of_beq hreads

/-! ## Signs -/

theorem ofUnits_eq_finite {m : Magnitude} {num den : Nat} :
    ofUnits negative num den = .finite negative m ↔ roundUnits num den = m.units := by
  obtain ⟨units, hunits⟩ := m
  unfold ofUnits
  split
  · simp only [finite.injEq, true_and, Magnitude.mk.injEq]
  · rename_i hfits
    simp only [reduceCtorEq, false_iff]
    rintro rfl
    exact hfits hunits

/-- The sign of a number has no part in its rounding. -/
theorem ofScientific_finite {m : Magnitude} {digits : Nat} {power : Int}
    (h : ofScientific false digits power = .finite false m) :
    ofScientific negative digits power = .finite negative m := by
  unfold ofScientific at h ⊢
  dsimp only at h ⊢
  split_ifs at h ⊢ <;> rw [ofUnits_eq_finite] at h ⊢ <;> exact h

/-! ## The text of a weight -/

theorem isDecimal_toText (m : Magnitude) : isDecimal (toText (.finite false m)) = true := by
  unfold toText
  simp only [Bool.false_eq_true, if_false, List.nil_append]
  split_ifs
  · decide
  · exact isDecimal_positional _

/-- The text of a finite double reads back as the double, under either sign. -/
theorem ofDecimal_toText (m : Magnitude) :
    ofDecimal negative (toText (.finite false m)) 0 = .finite negative m := by
  unfold toText
  simp only [Bool.false_eq_true, if_false, List.nil_append]
  split_ifs with h
  · have hzero : ofDecimal negative ['0'] 0 = .finite negative ⟨0, fits_zero⟩ := by
      cases negative <;> decide +kernel
    obtain ⟨units, hfits⟩ := m
    subst h
    exact hzero
  · rw [ofDecimal_positional]
    exact ofScientific_finite (ofScientific_shortest h)

end Double

end TextGrammar
