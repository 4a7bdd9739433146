-- Rounding, as far as order goes: rounding never passes a number that is kept as it is, and what
-- it gives is kept as it is. Both follow from where the multiples of a grain lie.
import TextGrammar.Double.Round

namespace TextGrammar

/-! ## The nearest whole number -/

theorem le_divNearest {num den k : Nat} (hden : 0 < den) (h : k * den ≤ num) :
    k ≤ divNearest num den := by
  have hk : k ≤ num / den := (Nat.le_div_iff_mul_le hden).mpr h
  unfold divNearest
  dsimp only
  split
  · exact hk
  · exact Nat.le_succ_of_le hk

theorem divNearest_le {num den k : Nat} (hden : 0 < den) (h : num ≤ k * den) :
    divNearest num den ≤ k := by
  have hk : num / den ≤ k := (Nat.div_le_iff_le_mul hden).mpr (by omega)
  unfold divNearest
  dsimp only
  split
  · exact hk
  · rename_i hround
    -- Rounding up to `k + 1` would need a remainder, and at `k` none is left.
    rcases Nat.lt_or_eq_of_le hk with hlt | heq
    · exact hlt
    · exfalso
      apply hround
      have hsplit := Nat.div_add_mod num den
      rw [heq, Nat.mul_comm] at hsplit
      have hrest : num % den = 0 := by omega
      simp [hrest, hden]

/-- A ratio that is at most half way above an even number is not rounded above it. -/
theorem divNearest_le_of_even {num den k : Nat} (hden : 0 < den) (heven : k % 2 = 0)
    (h : 2 * num ≤ (2 * k + 1) * den) : divNearest num den ≤ k := by
  have hsplit := Nat.div_add_mod num den
  have hexpand : (2 * k + 1) * den = 2 * (k * den) + den := by
    rw [Nat.add_mul, Nat.mul_assoc, Nat.one_mul]
  have hk : num / den ≤ k := by
    refine Nat.le_of_lt_succ ((Nat.div_lt_iff_lt_mul hden).mpr ?_)
    rw [Nat.succ_mul]
    omega
  unfold divNearest
  dsimp only
  split
  · exact hk
  · rename_i hround
    rcases Nat.lt_or_eq_of_le hk with hlt | heq
    · exact hlt
    · exfalso
      apply hround
      rw [heq, Nat.mul_comm] at hsplit
      have hrest : 2 * (num % den) ≤ den := by omega
      rcases Nat.lt_or_eq_of_le hrest with hless | hhalf
      · simp [hless]
      · simp [hhalf, heq, heven]

/-! ## Grains -/

theorem grain_pos (units : Nat) : 0 < grain units := twoPow_pos _

theorem twoPow_dvd {m n : Nat} (h : m ≤ n) : twoPow m ∣ twoPow n := Nat.pow_dvd_pow 2 h

theorem grain_dvd_grain {u v : Nat} (h : u.log2 ≤ v.log2) : grain u ∣ grain v :=
  twoPow_dvd (by omega)

theorem twoPow_log2_le {u : Nat} (h : u ≠ 0) : twoPow u.log2 ≤ u := Nat.log2_self_le h

theorem lt_twoPow_log2 (u : Nat) : u < twoPow (u.log2 + 1) := Nat.lt_log2_self

theorem Double.unitsPerOne_pos : 0 < Double.unitsPerOne := twoPow_pos _

theorem grain_dvd_twoPow {u n : Nat} (h : u.log2 ≤ n) : grain u ∣ twoPow n :=
  twoPow_dvd (by omega)

/-! ## Bounds -/

theorem le_roundUnits_of_dvd {num den w : Nat} (hden : 0 < den) (hw : grain (num / den) ∣ w)
    (h : w * den ≤ num) : w ≤ roundUnits num den := by
  obtain ⟨k, rfl⟩ := hw
  have hk : k * (den * grain (num / den)) ≤ num := by
    calc k * (den * grain (num / den)) = grain (num / den) * k * den := by ac_rfl
      _ ≤ num := h
  have hle := le_divNearest (Nat.mul_pos hden (grain_pos _)) hk
  unfold roundUnits
  dsimp only
  rw [Nat.mul_comm]
  exact Nat.mul_le_mul_right _ hle

theorem roundUnits_le_of_dvd {num den w : Nat} (hden : 0 < den) (hw : grain (num / den) ∣ w)
    (h : num ≤ w * den) : roundUnits num den ≤ w := by
  obtain ⟨k, rfl⟩ := hw
  have hk : num ≤ k * (den * grain (num / den)) := by
    calc num ≤ grain (num / den) * k * den := h
      _ = k * (den * grain (num / den)) := by ac_rfl
  have hle := divNearest_le (Nat.mul_pos hden (grain_pos _)) hk
  unfold roundUnits
  dsimp only
  rw [Nat.mul_comm (grain _)]
  exact Nat.mul_le_mul_right _ hle

/-- Rounding does not pass a number on the grid from above. -/
theorem le_roundUnits {num den v : Nat} (hden : 0 < den) (hv : grain v ∣ v)
    (h : v * den ≤ num) : v ≤ roundUnits num den := by
  have hle : v ≤ num / den := (Nat.le_div_iff_mul_le hden).mpr h
  by_cases hv0 : v = 0
  · rw [hv0]
    exact Nat.zero_le _
  have hu0 : num / den ≠ 0 := by omega
  have hlog : v.log2 ≤ (num / den).log2 := by
    rw [Nat.le_log2 hu0]
    exact Nat.le_trans (Nat.log2_self_le hv0) hle
  rcases Nat.lt_or_eq_of_le hlog with hlt | heq
  · -- The power of two below the ratio lies between.
    have hbelow : v ≤ twoPow (num / den).log2 := by
      have hvlt := lt_twoPow_log2 v
      have hpow : twoPow (v.log2 + 1) ≤ twoPow (num / den).log2 :=
        Nat.pow_le_pow_right (by decide) hlt
      omega
    refine Nat.le_trans hbelow (le_roundUnits_of_dvd hden (grain_dvd_twoPow (Nat.le_refl _)) ?_)
    exact (Nat.le_div_iff_mul_le hden).mp (twoPow_log2_le hu0)
  · refine le_roundUnits_of_dvd hden ?_ h
    rw [grain, ← heq]
    exact hv

/-- Rounding does not pass a number on the grid from below. -/
theorem roundUnits_le {num den v : Nat} (hden : 0 < den) (hv : grain v ∣ v)
    (h : num ≤ v * den) : roundUnits num den ≤ v := by
  have hle : num / den ≤ v := (Nat.div_le_iff_le_mul hden).mpr (by omega)
  by_cases hu0 : num / den = 0
  · refine roundUnits_le_of_dvd hden ?_ h
    rw [hu0]
    exact Nat.one_dvd v
  have hv0 : v ≠ 0 := fun h0 => hu0 (Nat.le_zero.mp (h0 ▸ hle))
  have hlog : (num / den).log2 ≤ v.log2 := by
    rw [Nat.le_log2 hv0]
    exact Nat.le_trans (Nat.log2_self_le hu0) hle
  rcases Nat.lt_or_eq_of_le hlog with hlt | heq
  · -- The power of two above the ratio lies between.
    have habove : twoPow ((num / den).log2 + 1) ≤ v :=
      Nat.le_trans (Nat.pow_le_pow_right (by decide) hlt) (twoPow_log2_le hv0)
    refine Nat.le_trans (roundUnits_le_of_dvd hden (grain_dvd_twoPow (Nat.le_succ _)) ?_) habove
    exact Nat.le_of_lt ((Nat.div_lt_iff_lt_mul hden).mp (lt_twoPow_log2 _))
  · refine roundUnits_le_of_dvd hden ?_ h
    rw [grain, heq]
    exact hv

/-- Rounding leaves a number on the grid as it is. -/
theorem roundUnits_mul {v den : Nat} (hden : 0 < den) (hv : grain v ∣ v) :
    roundUnits (v * den) den = v :=
  Nat.le_antisymm (roundUnits_le hden hv (Nat.le_refl _)) (le_roundUnits hden hv (Nat.le_refl _))

theorem twoPow_add (m n : Nat) : twoPow (m + n) = twoPow m * twoPow n := Nat.pow_add 2 m n

theorem grain_twoPow_dvd (n : Nat) : grain (twoPow n) ∣ twoPow n := by
  rw [grain, log2_twoPow]
  exact twoPow_dvd (Nat.sub_le n 52)

/-- Numbers below a power of two are on the grid when they are multiples of its grain. -/
theorem grain_dvd_of_lt {b n : Nat} (hn : n < twoPow (b + 53)) (hdvd : twoPow b ∣ n) :
    grain n ∣ n := by
  by_cases h0 : n = 0
  · rw [h0]
    exact Nat.dvd_zero _
  · have hlog : n.log2 < b + 53 := (Nat.log2_lt h0).mpr hn
    exact Nat.dvd_trans (twoPow_dvd (by omega)) hdvd

/-- What exceeds a power of two by no more than half a grain is rounded away. -/
theorem roundUnits_le_twoPow {n b : Nat} (h : n ≤ twoPow (b + 53) + twoPow b) :
    roundUnits n 1 ≤ twoPow (b + 53) := by
  by_cases hle : n ≤ twoPow (b + 53)
  · exact roundUnits_le (by decide) (grain_twoPow_dvd _) (by omega)
  have hhalf : twoPow (b + 1) = twoPow b * 2 := twoPow_add b 1
  have hgrains : twoPow (b + 53) = 2 ^ 52 * twoPow (b + 1) := by
    rw [hhalf, twoPow_add, Nat.mul_comm (2 ^ 52), Nat.mul_assoc]
    rfl
  have hpos := twoPow_pos b
  have hlog : n.log2 = b + 53 := by
    have hlt : n < twoPow (b + 53 + 1) := by
      have hdouble : twoPow (b + 53 + 1) = twoPow (b + 53) * 2 := twoPow_add (b + 53) 1
      omega
    have hn : n ≠ 0 := by omega
    have hbelow : n.log2 < b + 53 + 1 := (Nat.log2_lt hn).mpr hlt
    have habove : b + 53 ≤ n.log2 := (Nat.le_log2 hn).mpr (Nat.le_of_lt (Nat.lt_of_not_le hle))
    omega
  have hgrain : grain (n / 1) = twoPow (b + 1) := by
    rw [Nat.div_one, grain, hlog]
    rfl
  have hround : divNearest n (1 * twoPow (b + 1)) ≤ 2 ^ 52 := by
    refine divNearest_le_of_even (by omega) (by decide) ?_
    rw [Nat.one_mul, Nat.add_mul, Nat.one_mul, Nat.mul_assoc, ← hgrains]
    omega
  unfold roundUnits
  dsimp only
  rw [hgrain, hgrains]
  exact Nat.mul_le_mul_right _ hround

/-! ## Fitting -/

theorem grain_dvd_self_of_fits {v : Nat} (h : Fits v) : grain v ∣ v := Nat.dvd_of_mod_eq_zero h.2

/-- What rounding gives lies on the grid. -/
theorem grain_dvd_roundUnits (num : Nat) {den : Nat} (hden : 0 < den) :
    grain (roundUnits num den) ∣ roundUnits num den := by
  have hstep : grain (num / den) ∣ roundUnits num den := ⟨_, Nat.mul_comm _ _⟩
  have hle : roundUnits num den ≤ twoPow ((num / den).log2 + 1) := by
    refine roundUnits_le_of_dvd hden (grain_dvd_twoPow (Nat.le_succ _)) ?_
    exact Nat.le_of_lt ((Nat.div_lt_iff_lt_mul hden).mp (lt_twoPow_log2 _))
  rcases Nat.lt_or_eq_of_le hle with hlt | heq
  · refine Nat.dvd_trans (grain_dvd_grain ?_) hstep
    by_cases hr0 : roundUnits num den = 0
    · rw [hr0]
      exact Nat.zero_le _
    · exact Nat.le_of_lt_succ ((Nat.log2_lt hr0).mpr hlt)
  · rw [heq]
    exact grain_twoPow_dvd _

/-- A ratio not above a double is rounded to a double. -/
theorem fits_roundUnits {num den v : Nat} (hden : 0 < den) (hv : Fits v) (h : num ≤ v * den) :
    Fits (roundUnits num den) := by
  have hle := roundUnits_le hden (grain_dvd_self_of_fits hv) h
  exact ⟨Nat.lt_of_le_of_lt hle hv.1, Nat.mod_eq_zero_of_dvd (grain_dvd_roundUnits num hden)⟩

end TextGrammar
