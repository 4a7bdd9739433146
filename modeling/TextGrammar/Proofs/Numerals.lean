-- Whole numbers written and read again: reading gives back what was written.
import Mathlib.Algebra.Group.Nat.Defs
import TextGrammar.Numeral

namespace TextGrammar

/-! ## Runs of digits -/

theorem spelledNat_eq (cs : List Char) : spelledNat cs = Nat.ofDigitChars 10 cs 0 := rfl

theorem isDigit_of_mem_spellNat {n : Nat} {c : Char} (h : c ∈ spellNat n) : c.isDigit = true :=
  Nat.isDigit_of_mem_toDigits (by decide) (by decide) h

theorem spellNat_ne_nil (n : Nat) : spellNat n ≠ [] := Nat.toDigits_ne_nil

theorem spelledNat_spellNat (n : Nat) : spelledNat (spellNat n) = n := Nat.ofDigitChars_ten_toDigits

/-- Zeros in front do not count. -/
theorem spelledNat_zeros_append (n : Nat) (cs : List Char) :
    spelledNat (List.replicate n '0' ++ cs) = spelledNat cs := by
  rw [spelledNat_eq, Nat.ofDigitChars_append, Nat.ofDigitChars_replicate_zero, Nat.mul_zero,
    spelledNat_eq]

/-- Zeros at the end are factors of ten. -/
theorem spelledNat_append_zeros (n : Nat) (cs : List Char) :
    spelledNat (cs ++ List.replicate n '0') = spelledNat cs * 10 ^ n := by
  rw [spelledNat_eq, Nat.ofDigitChars_append, Nat.ofDigitChars_replicate_zero, Nat.mul_comm,
    spelledNat_eq]

theorem toNat_of_isDigit {c : Char} (h : c.isDigit = true) : 48 ≤ c.toNat ∧ c.toNat ≤ 57 := by
  simpa [Char.isDigit, UInt32.le_iff_toNat_le] using h

theorem ne_hyphen_of_isDigit {c : Char} (h : c.isDigit = true) : c ≠ '-' := by
  rintro rfl
  exact absurd h (by decide)

theorem ne_plus_of_isDigit {c : Char} (h : c.isDigit = true) : c ≠ '+' := by
  rintro rfl
  exact absurd h (by decide)

/-! ## Reading -/

theorem readNat?_spellNat (n : Nat) : readNat? (spellNat n) = some n := by
  unfold readNat?
  have hall : (spellNat n).all Char.isDigit = true :=
    List.all_eq_true.mpr fun c hc => isDigit_of_mem_spellNat hc
  simp [hall, spellNat_ne_nil, spelledNat_spellNat]

theorem readInt?_spellInt (n : Int) : readInt? (spellInt n) = some n := by
  unfold spellInt
  split
  · rename_i hneg
    have habs : -(n.natAbs : Int) = n := by omega
    rw [readInt?, readNat?_spellNat]
    exact congrArg some habs
  · rename_i hnonneg
    have hread : readInt? (spellNat n.natAbs) = (readNat? (spellNat n.natAbs)).map Int.ofNat := by
      unfold readInt?
      split
      · rename_i cs hcs
        have hplus : '+' ∈ spellNat n.natAbs := hcs ▸ List.mem_cons_self
        exact absurd rfl (ne_plus_of_isDigit (isDigit_of_mem_spellNat hplus))
      · rename_i cs hcs
        have hminus : '-' ∈ spellNat n.natAbs := hcs ▸ List.mem_cons_self
        exact absurd rfl (ne_hyphen_of_isDigit (isDigit_of_mem_spellNat hminus))
      · rfl
    have habs : Int.ofNat n.natAbs = n := by
      rw [Int.ofNat_eq_natCast]
      omega
    rw [hread, readNat?_spellNat, Option.map_some, habs]

theorem readInt64?_spellInt (n : Int64) : readInt64? (spellInt n.toInt) = some n := by
  rw [readInt64?, readInt?_spellInt, Option.bind_eq_bind, Option.bind_some,
    if_pos ⟨n.minValue_le_toInt, n.toInt_le⟩, Int64.ofInt_toInt]

end TextGrammar
