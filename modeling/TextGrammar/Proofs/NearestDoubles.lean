-- Rounding, as far as distance goes: what rounding gives is the nearest number of the grid of
-- doubles, and of two equally near the one whose last bit is even. There is only one such number,
-- so that the double of a decimal is told by the value of the decimal alone.
import Mathlib.Algebra.Order.Field.Basic
import Mathlib.Data.Rat.Cast.Order
import Mathlib.Tactic.FieldSimp
import Mathlib.Tactic.Linarith
import Mathlib.Tactic.Ring
import TextGrammar.Proofs.DecimalText

namespace TextGrammar

/-! ## The nearest number -/

/-- A double has this magnitude, or would have it if doubles had no upper limit. -/
def OnGrid (units : Nat) : Prop := grain units ∣ units

/-- The last bit that the magnitude has room for is not set. -/
def LastBitEven (units : Nat) : Prop := 2 * grain units ∣ units

/-- Of all magnitudes on the grid, this one is the nearest to `x` units; of two equally near, it is
the one whose last bit is even. -/
structure Nearest (x : ℚ) (units : Nat) : Prop where
  onGrid : OnGrid units
  least : ∀ other, OnGrid other → |x - units| ≤ |x - other|
  even : ∀ other, OnGrid other → other ≠ units → |x - other| = |x - units| → LastBitEven units

/-- The magnitudes on the grid next to `x` units, one not above it and one above it. -/
structure Neighbours (x : ℚ) (lower upper : Nat) : Prop where
  lower_le : (lower : ℚ) ≤ x
  lt_upper : x < upper
  lower_onGrid : OnGrid lower
  upper_onGrid : OnGrid upper
  apart : ∀ other, OnGrid other → other ≤ lower ∨ upper ≤ other
  one_even : LastBitEven lower ↔ ¬LastBitEven upper

namespace Neighbours

variable {x : ℚ} {lower upper other : Nat}

theorem distance_lower (h : Neighbours x lower upper) : |x - lower| = x - lower :=
  abs_of_nonneg (sub_nonneg.mpr h.lower_le)

theorem distance_upper (h : Neighbours x lower upper) : |x - upper| = upper - x := by
  rw [abs_sub_comm, abs_of_pos (sub_pos.mpr h.lt_upper)]

/-- All other magnitudes are farther off than the neighbour on their side. -/
theorem distance (h : Neighbours x lower upper) (hother : OnGrid other) :
    other ≤ lower ∧ |x - other| = x - other ∨ upper ≤ other ∧ |x - other| = other - x := by
  obtain hle | hle := h.apart other hother
  · have hcast : (other : ℚ) ≤ lower := Nat.cast_le.mpr hle
    exact .inl ⟨hle, abs_of_nonneg (sub_nonneg.mpr (hcast.trans h.lower_le))⟩
  · have hcast : (upper : ℚ) ≤ other := Nat.cast_le.mpr hle
    refine .inr ⟨hle, ?_⟩
    rw [abs_sub_comm, abs_of_pos (sub_pos.mpr (h.lt_upper.trans_le hcast))]

theorem nearest_lower (h : Neighbours x lower upper) (hnear : x - lower ≤ upper - x)
    (htie : x - lower = upper - x → LastBitEven lower) : Nearest x lower where
  onGrid := h.lower_onGrid
  least other hother := by
    rw [h.distance_lower]
    obtain ⟨hle, hdist⟩ | ⟨hle, hdist⟩ := h.distance hother
    · have hcast : (other : ℚ) ≤ lower := Nat.cast_le.mpr hle
      linarith
    · have hcast : (upper : ℚ) ≤ other := Nat.cast_le.mpr hle
      linarith
  even other hother hne hsame := by
    rw [h.distance_lower] at hsame
    obtain ⟨hle, hdist⟩ | ⟨hle, hdist⟩ := h.distance hother
    · have hcast : (other : ℚ) = lower := by linarith
      exact absurd (Nat.cast_injective hcast) hne
    · have hcast : (upper : ℚ) ≤ other := Nat.cast_le.mpr hle
      exact htie (by linarith)

theorem nearest_upper (h : Neighbours x lower upper) (hnear : upper - x ≤ x - lower)
    (htie : x - lower = upper - x → LastBitEven upper) : Nearest x upper where
  onGrid := h.upper_onGrid
  least other hother := by
    rw [h.distance_upper]
    obtain ⟨hle, hdist⟩ | ⟨hle, hdist⟩ := h.distance hother
    · have hcast : (other : ℚ) ≤ lower := Nat.cast_le.mpr hle
      linarith
    · have hcast : (upper : ℚ) ≤ other := Nat.cast_le.mpr hle
      linarith
  even other hother hne hsame := by
    rw [h.distance_upper] at hsame
    obtain ⟨hle, hdist⟩ | ⟨hle, hdist⟩ := h.distance hother
    · have hcast : (other : ℚ) ≤ lower := Nat.cast_le.mpr hle
      exact htie (by linarith)
    · have hcast : (other : ℚ) = upper := by linarith
      exact absurd (Nat.cast_injective hcast) hne

/-- The nearest magnitude is one of the two neighbours. -/
theorem eq_or_eq (h : Neighbours x lower upper) (hother : Nearest x other) :
    other = lower ∨ other = upper := by
  obtain ⟨hle, hdist⟩ | ⟨hle, hdist⟩ := h.distance hother.onGrid
  · have hleast := hother.least lower h.lower_onGrid
    rw [hdist, h.distance_lower] at hleast
    have hcast : (lower : ℚ) ≤ other := by linarith
    exact .inl (Nat.le_antisymm hle (Nat.cast_le.mp hcast))
  · have hleast := hother.least upper h.upper_onGrid
    rw [hdist, h.distance_upper] at hleast
    have hcast : (other : ℚ) ≤ upper := by linarith
    exact .inr (Nat.le_antisymm (Nat.cast_le.mp hcast) hle)

/-- Not both neighbours are nearest. -/
theorem not_both (h : Neighbours x lower upper) (hlower : Nearest x lower) :
    ¬Nearest x upper := by
  intro hupper
  have hne : upper ≠ lower := by
    rintro rfl
    exact absurd h.lt_upper (not_lt.mpr h.lower_le)
  have hsame : |x - upper| = |x - lower| :=
    le_antisymm (hupper.least lower h.lower_onGrid) (hlower.least upper h.upper_onGrid)
  exact h.one_even.mp (hlower.even upper h.upper_onGrid hne hsame)
    (hupper.even lower h.lower_onGrid hne.symm hsame.symm)

theorem unique (h : Neighbours x lower upper) {u v : Nat} (hu : Nearest x u) (hv : Nearest x v) :
    u = v := by
  obtain rfl | rfl := h.eq_or_eq hu <;> obtain rfl | rfl := h.eq_or_eq hv
  · rfl
  · exact absurd hv (h.not_both hu)
  · exact absurd hu (h.not_both hv)
  · rfl

end Neighbours

/-! ## The neighbours of a number -/

theorem log2_le_log2 {u v : Nat} (h : u ≤ v) : u.log2 ≤ v.log2 := by
  by_cases h0 : u = 0
  · rw [h0]
    exact Nat.zero_le _
  · exact (Nat.le_log2 (by omega)).mpr (Nat.le_trans (Nat.log2_self_le h0) h)

/-- The multiple of the grain of `n` that is not above `n`, and the next. -/
def gridBelow (n : Nat) : Nat := n / grain n * grain n

def gridAbove (n : Nat) : Nat := (n / grain n + 1) * grain n

section

variable {n v : Nat}

theorem gridBelow_le (n : Nat) : gridBelow n ≤ n := Nat.div_mul_le_self n (grain n)

theorem lt_gridAbove (n : Nat) : n < gridAbove n := by
  rw [gridAbove, Nat.mul_comm]
  exact Nat.lt_mul_div_succ n (grain_pos n)

theorem le_gridBelow (hdvd : grain n ∣ v) (h : v ≤ n) : v ≤ gridBelow n := by
  obtain ⟨j, rfl⟩ := hdvd
  rw [gridBelow, Nat.mul_comm]
  refine Nat.mul_le_mul_right _ ((Nat.le_div_iff_mul_le (grain_pos n)).mpr ?_)
  rwa [Nat.mul_comm]

theorem gridAbove_le (hdvd : grain n ∣ v) (h : n < v) : gridAbove n ≤ v := by
  obtain ⟨j, rfl⟩ := hdvd
  rw [gridAbove, Nat.mul_comm (grain n)]
  exact Nat.mul_le_mul_right _ ((Nat.div_lt_iff_lt_mul (grain_pos n)).mpr (Nat.mul_comm j _ ▸ h))

/-- The powers of two around a number are multiples of its grain. -/
theorem gridAbove_le_twoPow (n : Nat) : gridAbove n ≤ twoPow (n.log2 + 1) :=
  gridAbove_le (grain_dvd_twoPow (Nat.le_succ _)) (lt_twoPow_log2 n)

theorem log2_gridBelow (n : Nat) : (gridBelow n).log2 = n.log2 := by
  by_cases h0 : n = 0
  · rw [h0]
    decide
  have hlow : twoPow n.log2 ≤ gridBelow n :=
    le_gridBelow (grain_dvd_twoPow (Nat.le_refl _)) (twoPow_log2_le h0)
  have hne : gridBelow n ≠ 0 := Nat.ne_of_gt (Nat.lt_of_lt_of_le (twoPow_pos _) hlow)
  exact (Nat.log2_eq_iff hne).mpr ⟨hlow, Nat.lt_of_le_of_lt (gridBelow_le n) (lt_twoPow_log2 n)⟩

theorem grain_gridBelow (n : Nat) : grain (gridBelow n) = grain n := by
  rw [grain, log2_gridBelow]
  rfl

/-- The next magnitude has the same grain, or it is a power of two with twice the grain. -/
theorem grain_gridAbove (n : Nat) : grain (gridAbove n) = grain n ∨
    gridAbove n = 2 ^ 53 * grain n ∧ grain (gridAbove n) = 2 * grain n := by
  obtain hlt | heq := Nat.lt_or_eq_of_le (gridAbove_le_twoPow n)
  · have hn := lt_gridAbove n
    have hlog : (gridAbove n).log2 = n.log2 := by
      by_cases h0 : n = 0
      · rw [h0]
        decide
      refine (Nat.log2_eq_iff (by omega)).mpr ⟨?_, hlt⟩
      exact Nat.le_of_lt (Nat.lt_of_le_of_lt (twoPow_log2_le h0) hn)
    refine .inl ?_
    rw [grain, hlog]
    rfl
  have hgrain : grain (gridAbove n) = twoPow (n.log2 + 1 - 52) := by
    rw [heq, grain, log2_twoPow]
  by_cases hsmall : n.log2 < 52
  · refine .inl ?_
    rw [hgrain, grain, Nat.sub_eq_zero_of_le (by omega), Nat.sub_eq_zero_of_le (by omega)]
  · obtain ⟨b, hb⟩ := Nat.exists_eq_add_of_le' (Nat.le_of_not_lt hsmall)
    refine .inr ⟨?_, ?_⟩
    · rw [heq, grain, hb, Nat.add_sub_cancel, Nat.add_assoc, twoPow_add, Nat.mul_comm]
      rfl
    · rw [hgrain, grain, hb, Nat.add_sub_cancel, Nat.add_right_comm, Nat.add_sub_cancel,
        twoPow_add, Nat.mul_comm]
      rfl

theorem onGrid_gridBelow (n : Nat) : OnGrid (gridBelow n) := by
  rw [OnGrid, grain_gridBelow]
  exact Nat.dvd_mul_left _ _

theorem onGrid_gridAbove (n : Nat) : OnGrid (gridAbove n) := by
  rw [OnGrid]
  obtain hgrain | ⟨heq, hgrain⟩ := grain_gridAbove n
  · rw [hgrain]
    exact Nat.dvd_mul_left _ _
  · rw [hgrain, heq]
    exact Nat.mul_dvd_mul_right (by decide) _

/-- There is nothing on the grid between the two. -/
theorem le_gridBelow_or (hv : OnGrid v) : v ≤ gridBelow n ∨ gridAbove n ≤ v := by
  obtain hle | hlt := Nat.lt_or_ge n v
  · refine .inr ?_
    obtain hlog | hlog := Nat.lt_or_eq_of_le (log2_le_log2 (Nat.le_of_lt hle))
    · have hv0 : v ≠ 0 := by omega
      calc gridAbove n ≤ twoPow (n.log2 + 1) := gridAbove_le_twoPow n
        _ ≤ twoPow v.log2 := Nat.pow_le_pow_right (by decide) hlog
        _ ≤ v := twoPow_log2_le hv0
    · refine gridAbove_le ?_ hle
      rw [grain, hlog]
      exact hv
  · refine .inl ?_
    obtain hlog | hlog := Nat.lt_or_eq_of_le (log2_le_log2 hlt)
    · have hn0 : n ≠ 0 := by
        rintro rfl
        cases hlog
      calc v ≤ twoPow (v.log2 + 1) := Nat.le_of_lt (lt_twoPow_log2 v)
        _ ≤ twoPow n.log2 := Nat.pow_le_pow_right (by decide) hlog
        _ ≤ gridBelow n := le_gridBelow (grain_dvd_twoPow (Nat.le_refl _)) (twoPow_log2_le hn0)
    · refine le_gridBelow ?_ hlt
      rw [grain, ← hlog]
      exact hv

theorem lastBitEven_gridBelow (n : Nat) : LastBitEven (gridBelow n) ↔ n / grain n % 2 = 0 := by
  rw [LastBitEven, grain_gridBelow, gridBelow, Nat.mul_dvd_mul_iff_right (grain_pos n),
    Nat.dvd_iff_mod_eq_zero]

theorem lastBitEven_gridAbove (n : Nat) : LastBitEven (gridAbove n) ↔ n / grain n % 2 = 1 := by
  rw [LastBitEven]
  obtain hgrain | ⟨heq, hgrain⟩ := grain_gridAbove n
  · rw [hgrain, gridAbove, Nat.mul_dvd_mul_iff_right (grain_pos n)]
    omega
  · have hodd : n / grain n + 1 = 2 ^ 53 := Nat.eq_of_mul_eq_mul_right (grain_pos n) heq
    have hdvd : 2 * (2 * grain n) ∣ gridAbove n := by
      rw [heq, ← Nat.mul_assoc]
      exact Nat.mul_dvd_mul_right (by decide) _
    rw [hgrain, iff_true_left hdvd]
    omega

end

/-- The magnitudes next to a ratio of units go by the whole units of it. -/
theorem neighbours_div {num den : Nat} (hden : 0 < den) :
    Neighbours ((num : ℚ) / den) (gridBelow (num / den)) (gridAbove (num / den)) where
  lower_le := by
    rw [le_div_iff₀ (Nat.cast_pos.mpr hden), ← Nat.cast_mul, Nat.cast_le]
    exact (Nat.le_div_iff_mul_le hden).mp (gridBelow_le _)
  lt_upper := by
    rw [div_lt_iff₀ (Nat.cast_pos.mpr hden), ← Nat.cast_mul, Nat.cast_lt]
    exact (Nat.div_lt_iff_lt_mul hden).mp (lt_gridAbove _)
  lower_onGrid := onGrid_gridBelow _
  upper_onGrid := onGrid_gridAbove _
  apart _ hother := le_gridBelow_or hother
  one_even := by
    rw [lastBitEven_gridBelow, lastBitEven_gridAbove]
    omega

/-! ## Rounding -/

/-- Rounding takes the neighbour below up to the middle between the two, and there the one whose
last bit is even. -/
theorem roundUnits_eq (num den : Nat) : roundUnits num den =
    if 2 * num < (gridBelow (num / den) + gridAbove (num / den)) * den ∨
        2 * num = (gridBelow (num / den) + gridAbove (num / den)) * den ∧
          num / den / grain (num / den) % 2 = 0
    then gridBelow (num / den) else gridAbove (num / den) := by
  have hquotient : num / (den * grain (num / den)) = num / den / grain (num / den) :=
    (Nat.div_div_eq_div_mul _ _ _).symm
  have hsplit := Nat.div_add_mod num (den * grain (num / den))
  have hsum : (gridBelow (num / den) + gridAbove (num / den)) * den =
      2 * (den * grain (num / den) * (num / den / grain (num / den))) +
        den * grain (num / den) := by
    unfold gridBelow gridAbove
    ring
  have hcompare (step : Nat) {whole rest : Nat} (h : whole + rest = num) :
      (2 * rest < step ↔ 2 * num < 2 * whole + step) ∧
        (2 * rest = step ↔ 2 * num = 2 * whole + step) := by
    omega
  rw [hquotient] at hsplit
  obtain ⟨hbelow, hhalf⟩ := hcompare (den * grain (num / den)) hsplit
  rw [← hsum] at hbelow hhalf
  unfold roundUnits divNearest
  simp only [hquotient, Bool.or_eq_true, Bool.and_eq_true, decide_eq_true_eq, beq_iff_eq, hbelow,
    hhalf]
  split
  · rfl
  · rfl

theorem nearest_roundUnits {num den : Nat} (hden : 0 < den) :
    Nearest ((num : ℚ) / den) (roundUnits num den) := by
  have hneighbours := @neighbours_div num den hden
  have hpos : (0 : ℚ) < den := Nat.cast_pos.mpr hden
  have hmiddle : 2 * ((num : ℚ) / den) ≤ gridBelow (num / den) + gridAbove (num / den) ↔
      2 * num ≤ (gridBelow (num / den) + gridAbove (num / den)) * den := by
    rw [← mul_div_assoc, div_le_iff₀ hpos]
    exact_mod_cast Iff.rfl
  have hmiddle' : (gridBelow (num / den) + gridAbove (num / den) : ℚ) ≤ 2 * ((num : ℚ) / den) ↔
      (gridBelow (num / den) + gridAbove (num / den)) * den ≤ 2 * num := by
    rw [← mul_div_assoc, le_div_iff₀ hpos]
    exact_mod_cast Iff.rfl
  rw [roundUnits_eq]
  split
  · rename_i hbelow
    have hnear := hmiddle.mpr (by omega)
    refine hneighbours.nearest_lower (by linarith) fun htie => ?_
    have hhalf := hmiddle'.mp (by linarith)
    exact (lastBitEven_gridBelow _).mpr (by omega)
  · rename_i habove
    have hnear := hmiddle'.mpr (by omega)
    refine hneighbours.nearest_upper (by linarith) fun htie => ?_
    have hhalf := hmiddle.mp (by linarith)
    exact (lastBitEven_gridAbove _).mpr (by omega)

/-- A ratio is rounded to the magnitude that is the nearest, and to no other. -/
theorem nearest_iff {num den units : Nat} (hden : 0 < den) :
    Nearest ((num : ℚ) / den) units ↔ roundUnits num den = units := by
  have hround := @nearest_roundUnits num den hden
  refine ⟨(neighbours_div hden).unique hround, ?_⟩
  rintro rfl
  exact hround

/-- Less than half a unit is nearest to nothing at all. -/
theorem nearest_of_small {x : ℚ} {units : Nat} (hnonneg : 0 ≤ x) (hsmall : 2 * x < 1) :
    Nearest x units ↔ units = 0 := by
  have hneighbours : Neighbours x 0 1 := {
    lower_le := by simpa using hnonneg
    lt_upper := by rw [Nat.cast_one]; linarith
    lower_onGrid := Nat.dvd_zero _
    upper_onGrid := Nat.dvd_refl 1
    apart := fun other _ => by omega
    one_even := iff_of_true (Nat.dvd_zero _) (by unfold LastBitEven; decide) }
  have hzero : Nearest x 0 := by
    refine hneighbours.nearest_lower ?_ fun _ => Nat.dvd_zero _
    simp only [Nat.cast_zero, Nat.cast_one]
    linarith
  refine ⟨fun h => hneighbours.unique h hzero, ?_⟩
  rintro rfl
  exact hzero

/-- What is as large as the first power of two that is too large for a double has none nearest. -/
theorem not_nearest_of_large {x : ℚ} (hlarge : (twoPow unitBits : ℚ) ≤ x) (m : Magnitude) :
    ¬Nearest x m.units := by
  intro h
  have hlt : (m.units : ℚ) < (twoPow unitBits : ℕ) := Nat.cast_lt.mpr m.fits.1
  have hleast := h.least (twoPow unitBits) (grain_twoPow_dvd _)
  rw [abs_of_nonneg (by linarith), abs_of_nonneg (by linarith)] at hleast
  linarith

/-! ## Decimals -/

namespace Double

variable {m : Magnitude}

/-- How large a number is goes by the power of ten above it. -/
theorem scientific_bounds {digits : Nat} (h : digits ≠ 0) (power : Int) :
    (10 : ℚ) ^ (power + (spellNat digits).length - 1) ≤ digits * 10 ^ power ∧
      (digits : ℚ) * 10 ^ power < 10 ^ (power + (spellNat digits).length) := by
  obtain ⟨k, hk⟩ : ∃ k, (spellNat digits).length = k + 1 :=
    Nat.exists_eq_succ_of_ne_zero (List.length_pos_iff.mpr (spellNat_ne_nil digits)).ne'
  have hlow : 10 ^ k ≤ digits := by
    by_contra hlt
    by_cases hk0 : k = 0
    · rw [hk0] at hlt
      omega
    · have hlength := length_spellNat_le (Nat.pos_of_ne_zero hk0) (Nat.lt_of_not_le hlt)
      omega
  have hhigh : digits < 10 ^ (k + 1) := by
    by_contra hle
    have hlength := lt_length_spellNat (Nat.succ_pos k) (Nat.le_of_not_lt hle)
    omega
  have hten : (0 : ℚ) < 10 ^ power := zpow_pos (by norm_num) power
  have hlow' : power + ((k + 1 : ℕ) : ℤ) - 1 = (k : ℤ) + power := by omega
  have hhigh' : power + ((k + 1 : ℕ) : ℤ) = ((k + 1 : ℕ) : ℤ) + power := by omega
  rw [hk, hlow', hhigh', zpow_add₀ (by norm_num), zpow_add₀ (by norm_num), zpow_natCast,
    zpow_natCast]
  exact ⟨mul_le_mul_of_nonneg_right (by exact_mod_cast hlow) hten.le,
    mul_lt_mul_of_pos_right (by exact_mod_cast hhigh) hten⟩

/-- Below the least power of ten less than half a unit is left, and the greatest is too large. -/
theorem powerLimit_bounds : 2 * ((10 : ℚ) ^ (-powerLimit - 1) * unitsPerOne) < 1 ∧
    (twoPow unitBits : ℚ) ≤ 10 ^ powerLimit * unitsPerOne := by
  have hless {a b : ℕ} (h : 2 * a < b) : 2 * ((b : ℚ)⁻¹ * a) < 1 := by
    have hb : (0 : ℚ) < b := Nat.cast_pos.mpr (by omega)
    rw [mul_left_comm, inv_mul_lt_iff₀ hb, mul_one]
    exact_mod_cast h
  have hsmall : 2 * unitsPerOne < 10 ^ 401 := by decide +kernel
  have hlarge : twoPow unitBits ≤ 10 ^ 400 * unitsPerOne := by decide +kernel
  have hlow : (10 : ℚ) ^ (-powerLimit - 1) = ((10 ^ 401 : ℕ) : ℚ)⁻¹ := by
    rw [Nat.cast_pow, Nat.cast_ofNat, ← zpow_natCast, ← zpow_neg]
    rfl
  have hhigh : (10 : ℚ) ^ powerLimit = ((10 ^ 400 : ℕ) : ℚ) := by
    rw [Nat.cast_pow, Nat.cast_ofNat, ← zpow_natCast]
    rfl
  rw [hlow, hhigh, ← Nat.cast_mul, Nat.cast_le]
  exact ⟨hless hsmall, hlarge⟩

theorem ofScientific_eq_finite {digits : Nat} {power : Int} :
    ofScientific false digits power = .finite false m ↔
      Nearest (digits * 10 ^ power * unitsPerOne) m.units := by
  obtain ⟨hlow, hhigh⟩ := powerLimit_bounds
  have hunits : (0 : ℚ) < unitsPerOne := Nat.cast_pos.mpr unitsPerOne_pos
  have hten : (0 : ℚ) < 10 ^ power := zpow_pos (by norm_num) power
  unfold ofScientific
  dsimp only
  split_ifs with hsmall hlarge hwhole
  · have hround : roundUnits 0 1 = 0 := by decide
    have hnonneg : (0 : ℚ) ≤ digits * 10 ^ power * unitsPerOne :=
      mul_nonneg (mul_nonneg digits.cast_nonneg hten.le) hunits.le
    have hless : 2 * ((digits : ℚ) * 10 ^ power * unitsPerOne) < 1 := by
      by_cases h0 : digits = 0
      · rw [h0, Nat.cast_zero, zero_mul, zero_mul, mul_zero]
        exact one_pos
      have htop : power + (spellNat digits).length ≤ -powerLimit - 1 := by
        simp only [h0, decide_false, Bool.false_or, decide_eq_true_eq] at hsmall
        omega
      have hpow : (10 : ℚ) ^ (power + (spellNat digits).length) ≤ 10 ^ (-powerLimit - 1) :=
        zpow_le_zpow_right₀ (by norm_num) htop
      have hvalue := (scientific_bounds h0 power).2.trans_le hpow
      have hmul := mul_lt_mul_of_pos_right hvalue hunits
      linarith
    rw [ofUnits_eq_finite, hround, nearest_of_small hnonneg hless, eq_comm]
  · have h0 : digits ≠ 0 := by
      rintro rfl
      simp at hsmall
    have hpow : (10 : ℚ) ^ powerLimit ≤ 10 ^ (power + (spellNat digits).length - 1) :=
      zpow_le_zpow_right₀ (by norm_num) (by omega)
    have hvalue := hpow.trans (scientific_bounds h0 power).1
    have hmul := mul_le_mul_of_nonneg_right hvalue hunits.le
    exact iff_of_false nofun (not_nearest_of_large (hhigh.trans hmul) m)
  · obtain ⟨p, rfl⟩ := Int.eq_ofNat_of_zero_le hwhole
    rw [ofUnits_eq_finite, ← nearest_iff Nat.one_pos, Int.toNat_natCast, Nat.pow_eq, Nat.cast_one,
      div_one, Nat.cast_mul, Nat.cast_mul, Nat.cast_pow, Nat.cast_ofNat, zpow_natCast]
  · obtain ⟨p, rfl⟩ : ∃ p : ℕ, power = -p := ⟨(-power).toNat, by omega⟩
    rw [ofUnits_eq_finite, Int.neg_neg, Int.toNat_natCast,
      ← nearest_iff (power_pos (by decide) p), Nat.pow_eq, Nat.cast_mul, Nat.cast_pow,
      Nat.cast_ofNat, zpow_neg, zpow_natCast, mul_right_comm, div_eq_mul_inv]

/-- The number that digits with a point among them spell. -/
def decimalValue (cs : List Char) : ℚ :=
  let places := (cs.dropWhile (· != '.')).drop 1
  spelledNat (cs.takeWhile (· != '.')) + spelledNat places / 10 ^ places.length

/-- A decimal is digits, or it is digits on both sides of a point. -/
theorem digits_or_pointed {cs : List Char} (h : isDecimal cs = true) :
    (∀ c ∈ cs, c.isDigit = true) ∨ ∃ before after, cs = before ++ '.' :: after ∧
      (∀ c ∈ before, c.isDigit = true) ∧ ∀ c ∈ after, c.isDigit = true := by
  by_cases hpoint : '.' ∈ cs
  · obtain ⟨before, after, rfl⟩ := List.append_of_mem hpoint
    have hcount : (before ++ '.' :: after).count '.' ≤ 1 := by
      simp only [isDecimal, Bool.and_eq_true, decide_eq_true_eq] at h
      exact h.2
    rw [List.count_append, List.count_cons_self] at hcount
    have hbefore : '.' ∉ before := List.count_eq_zero.mp (by omega)
    have hafter : '.' ∉ after := List.count_eq_zero.mp (by omega)
    refine .inr ⟨before, after, rfl, fun c hc => ?_, fun c hc => ?_⟩
    · refine (mem_of_isDecimal h (List.mem_append_left _ hc)).resolve_right ?_
      rintro rfl
      exact hbefore hc
    · refine (mem_of_isDecimal h (by simp [hc])).resolve_right ?_
      rintro rfl
      exact hafter hc
  · refine .inl fun c hc => (mem_of_isDecimal h hc).resolve_right ?_
    rintro rfl
    exact hpoint hc

theorem takeWhile_ne_point {cs : List Char} (h : ∀ c ∈ cs, c.isDigit = true) (rest : List Char) :
    (cs ++ rest).takeWhile (· != '.') = cs ++ rest.takeWhile (· != '.') :=
  List.takeWhile_append_of_pos fun c hc => by simpa using ne_point_of_isDigit (h c hc)

theorem decimalValue_digits {cs : List Char} (h : ∀ c ∈ cs, c.isDigit = true) :
    decimalValue cs = spelledNat cs * 10 ^ (0 : ℤ) := by
  have hwhole : cs.takeWhile (· != '.') = cs := by
    have htake := takeWhile_ne_point h []
    rwa [List.append_nil, List.takeWhile_nil, List.append_nil] at htake
  have hplaces : cs.dropWhile (· != '.') = [] := by
    have hdrop := dropWhile_ne_point h []
    rwa [List.append_nil] at hdrop
  have hnil : spelledNat [] = 0 := rfl
  unfold decimalValue
  dsimp only
  rw [hwhole, hplaces, List.drop_nil, hnil, Nat.cast_zero, zero_div, add_zero, zpow_zero, mul_one]

theorem decimalValue_pointed {before after : List Char} (h : ∀ c ∈ before, c.isDigit = true) :
    decimalValue (before ++ '.' :: after) =
      spelledNat (before ++ after) * 10 ^ (-(after.length : ℤ)) := by
  have hwhole : (before ++ '.' :: after).takeWhile (· != '.') = before := by
    rw [takeWhile_ne_point h, List.takeWhile_cons_of_neg (by decide), List.append_nil]
  have hplaces : ((before ++ '.' :: after).dropWhile (· != '.')).drop 1 = after := by
    rw [dropWhile_ne_point h, List.dropWhile_cons_of_neg (by decide)]
    rfl
  have hdigits : spelledNat (before ++ after) =
      10 ^ after.length * spelledNat before + spelledNat after := by
    rw [spelledNat_eq, Nat.ofDigitChars_append, Nat.ofDigitChars_eq_ofDigitChars_zero]
    rfl
  have hten : (10 : ℚ) ^ after.length ≠ 0 := pow_ne_zero _ (by norm_num)
  unfold decimalValue
  dsimp only
  rw [hwhole, hplaces, hdigits, zpow_neg, zpow_natCast]
  push_cast
  field_simp

/-- A decimal is read as the double nearest to the number that it spells. -/
theorem ofDecimal_eq_finite {cs : List Char} (h : isDecimal cs = true) :
    ofDecimal false cs 0 = .finite false m ↔
      Nearest (decimalValue cs * unitsPerOne) m.units := by
  obtain hdigits | ⟨before, after, rfl, hbefore, hafter⟩ := digits_or_pointed h
  · rw [ofDecimal_digits hdigits, ofScientific_eq_finite, decimalValue_digits hdigits]
  · rw [ofDecimal_pointed hbefore hafter, ofScientific_eq_finite, decimalValue_pointed hbefore]

end Double

end TextGrammar
