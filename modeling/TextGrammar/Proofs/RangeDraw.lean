-- The law of drawing from a range: what is drawn lies between the bounds.
import Mathlib.Algebra.Group.Int.Defs
import Mathlib.Algebra.Group.Nat.Defs
import TextGrammar.Chance.Range
import TextGrammar.Proofs.Answers

namespace TextGrammar

variable {σ : Type}

/-- The high part of a word times a size is below the size. -/
theorem lt_of_drawBelow {take : σ → Nat × σ} {bits size zone tries : Nat}
    (htake : ∀ source, (take source).1 < Nat.pow 2 bits) (hsize : 0 < size) {source : σ} {n : Nat}
    (h : (drawBelow take bits size zone tries source).1 = .ok n) : n < size := by
  induction tries generalizing source with
  | zero => cases h
  | succ tries ih =>
    unfold drawBelow at h
    dsimp only at h
    split at h
    · cases h
      have hpow : 0 < Nat.pow 2 bits := Nat.two_pow_pos bits
      rw [Nat.div_lt_iff_lt_mul hpow, Nat.mul_comm size]
      exact Nat.mul_lt_mul_of_pos_right (htake source) hsize
    · exact ih h

/-- There is no result only when no word that is taken can be used. -/
theorem eq_exhausted_of_drawBelow {take : σ → Nat × σ} {bits size zone tries : Nat} {source : σ}
    {fault : DrawFault} (h : (drawBelow take bits size zone tries source).1 = .error fault) :
    fault = .exhausted := by
  induction tries generalizing source with
  | zero =>
    cases h
    rfl
  | succ tries ih =>
    unfold drawBelow at h
    dsimp only at h
    split at h
    · cases h
    · exact ih h

variable [WordSource σ]

/-! ## Numbers -/

/-- A number is its word, less `2 ^ 64` when the word's first bit is set. -/
theorem toInt_eq (x : Int64) : x.toInt =
    if 2 * x.toUInt64.toNat < 2 ^ 64 then (x.toUInt64.toNat : Int)
    else (x.toUInt64.toNat : Int) - (2 ^ 64 : Nat) :=
  BitVec.toInt_eq_toNat_cond x.toBitVec

/-- How many numbers a range has; none stands for as many as there are words. -/
theorem toNat_size {low high : Int64} (h : low ≤ high) :
    let size := (high.toUInt64 - low.toUInt64 + 1).toNat
    (size : Int) = high.toInt - low.toInt + 1 ∨
      size = 0 ∧ low.toInt = -2 ^ 63 ∧ high.toInt = 2 ^ 63 - 1 := by
  intro size
  have hsize : size =
      ((2 ^ 64 - low.toUInt64.toNat + high.toUInt64.toNat) % 2 ^ 64 + 1) % 2 ^ 64 := by
    simp [size, UInt64.toNat_add, UInt64.toNat_sub]
  have hle := Int64.le_iff_toInt_le.mp h
  have hlow := toInt_eq low
  have hhigh := toInt_eq high
  have hlowWord := low.toUInt64.toNat_lt
  have hhighWord := high.toUInt64.toNat_lt
  split at hlow <;> split at hhigh <;> omega

theorem between_of_drawNumber {low high x : Int64} {source : σ}
    (h : (drawNumber low high source).1 = .ok x) : low ≤ x ∧ x ≤ high := by
  unfold drawNumber at h
  -- How many words may be rejected does not matter, and is too many to compute with.
  obtain ⟨tries, htries⟩ : ∃ n, n = rejectionLimit := ⟨_, rfl⟩
  rw [← htries] at h
  clear htries
  split at h
  · cases h
  rename_i hbounds
  have hsize := toNat_size (Int64.not_lt.mp hbounds)
  dsimp only at h hsize
  rw [Int64.le_iff_toInt_le, Int64.le_iff_toInt_le]
  split at h
  · rename_i hzero
    rw [hzero, UInt64.toNat_zero] at hsize
    have hmin := x.minValue_le_toInt
    have hmax := x.toInt_le
    rw [Int64.toInt_minValue] at hmin
    rw [Int64.toInt_maxValue] at hmax
    have hle := Int64.le_iff_toInt_le.mp (Int64.not_lt.mp hbounds)
    omega
  · rename_i hzero
    obtain ⟨offset, hdrawn, rfl⟩ := map_eq_ok.mp h
    obtain ⟨n, hn, hoffset⟩ := bind_eq_ok.mp hdrawn
    cases hoffset
    have hpos : 0 < (high.toUInt64 - low.toUInt64 + 1).toNat := by
      refine Nat.pos_of_ne_zero fun h0 => hzero ?_
      exact UInt64.toNat_inj.mp h0
    have hlt := lt_of_drawBelow (fun source => (WordSource.word64 source).1.toNat_lt) hpos hn
    have hmin := low.minValue_le_toInt
    have hmax := high.toInt_le
    rw [Int64.toInt_minValue] at hmin
    rw [Int64.toInt_maxValue] at hmax
    rw [Int64.toInt_ofInt_of_le (by omega) (by omega)]
    omega

theorem eq_exhausted_of_drawNumber {low high : Int64} (hbounds : low ≤ high) {source : σ}
    {fault : DrawFault} (h : (drawNumber low high source).1 = .error fault) :
    fault = .exhausted := by
  unfold drawNumber at h
  obtain ⟨tries, htries⟩ : ∃ n, n = rejectionLimit := ⟨_, rfl⟩
  rw [← htries, if_neg (Int64.not_lt.mpr hbounds)] at h
  clear htries
  dsimp only at h
  split at h
  · cases h
  · rcases bind_eq_error.mp (map_eq_error.mp h) with hdrawn | ⟨_, _, hoffset⟩
    · exact eq_exhausted_of_drawBelow hdrawn
    · cases hoffset

/-! ## Letters -/

/-- No character has a code point that stands for none. -/
theorem toNat_valid (c : Char) :
    c.toNat < surrogateStart ∨
      surrogateStart + surrogateCount ≤ c.toNat ∧ c.toNat < 0x110000 := by
  have hvalid : c.toNat < 0xD800 ∨ 0xDFFF < c.toNat ∧ c.toNat < 0x110000 := c.valid
  unfold surrogateStart surrogateCount
  omega

theorem toNat_ofNat {n : Nat} (h : n.isValidChar) : (Char.ofNat n).toNat = n := by
  rw [Char.ofNat, dif_pos h]
  rfl

/-- Ranks keep the order of characters. -/
theorem charRank_le {a b : Char} (h : a ≤ b) : charRank a ≤ charRank b := by
  have hle : a.toNat ≤ b.toNat := h
  have ha := toNat_valid a
  have hb := toNat_valid b
  unfold charRank
  split <;> split <;> omega

/-- Between the ranks of two characters is the rank of a character between the two. -/
theorem between_charOfRank {low high : Char} {n : Nat} (hlow : charRank low ≤ n)
    (hhigh : n ≤ charRank high) : low ≤ charOfRank n ∧ charOfRank n ≤ high := by
  have hlowValid := toNat_valid low
  have hhighValid := toNat_valid high
  unfold charRank surrogateStart surrogateCount at *
  change low.toNat ≤ (charOfRank n).toNat ∧ (charOfRank n).toNat ≤ high.toNat
  unfold charOfRank surrogateStart surrogateCount
  by_cases hn : n < 0xD800
  · rw [if_pos hn, toNat_ofNat (Or.inl hn)]
    split at hlow <;> split at hhigh <;> omega
  · have hvalid : (n + 0x800).isValidChar := by
      refine Or.inr ?_
      split at hhigh <;> omega
    rw [if_neg hn, toNat_ofNat hvalid]
    split at hlow <;> split at hhigh <;> omega

theorem between_of_drawLetter {low high x : Char} {source : σ}
    (h : (drawLetter low high source).1 = .ok x) : low ≤ x ∧ x ≤ high := by
  unfold drawLetter at h
  obtain ⟨tries, htries⟩ : ∃ n, n = rejectionLimit := ⟨_, rfl⟩
  rw [← htries] at h
  clear htries
  split at h
  · cases h
  rename_i hbounds
  have hle := charRank_le (Char.not_lt.mp hbounds)
  dsimp only at h
  obtain ⟨n, hn, rfl⟩ := map_eq_ok.mp h
  have hlt := lt_of_drawBelow (fun source => (WordSource.word32 source).1.toNat_lt)
    (Nat.succ_pos _) hn
  exact between_charOfRank (by omega) (by omega)

theorem eq_exhausted_of_drawLetter {low high : Char} (hbounds : low ≤ high) {source : σ}
    {fault : DrawFault} (h : (drawLetter low high source).1 = .error fault) :
    fault = .exhausted := by
  unfold drawLetter at h
  obtain ⟨tries, htries⟩ : ∃ n, n = rejectionLimit := ⟨_, rfl⟩
  rw [← htries, if_neg (Char.not_lt.mpr hbounds)] at h
  exact eq_exhausted_of_drawBelow (map_eq_error.mp h)

end TextGrammar
