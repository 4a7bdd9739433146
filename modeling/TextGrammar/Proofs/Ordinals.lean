-- The law of ordinals. A whole number in digits takes the ending that its last two digits ask for,
-- with a minus in front of it or without.
import TextGrammar.Proofs.NumberArticles

namespace TextGrammar

namespace Ordinal

/-- The ending that the ordinal of a number takes. Eleven, twelve and thirteen are exceptions, in
each hundred; else the last digit decides. -/
def endingOf (n : Nat) : List Char :=
  if n % 100 = 11 ∨ n % 100 = 12 ∨ n % 100 = 13 then ['t', 'h']
  else
    match n % 10 with
    | 1 => ['s', 't']
    | 2 => ['n', 'd']
    | 3 => ['r', 'd']
    | _ => ['t', 'h']

/-! ## The last two digits -/

theorem endingOf_mod (n : Nat) : endingOf (n % 100) = endingOf n := by
  have hunits : n % 100 % 10 = n % 10 := by omega
  rw [endingOf, endingOf, Nat.mod_mod, hunits]

theorem exists_last_digit (n : Nat) : ∃ front, spellNat n = front ++ [(n % 10).digitChar] := by
  by_cases hsmall : n < 10
  · exact ⟨[], by rw [spellNat_of_lt_ten hsmall, Nat.mod_eq_of_lt hsmall, List.nil_append]⟩
  · exact ⟨spellNat (n / 10), spellNat_tens (Nat.le_of_not_lt hsmall)⟩

/-- The tens are looked at first, and no digit in front of them. -/
theorem ending_cons_cons (units tens : Char) (front : List Char) :
    ending (units :: tens :: front) = if tens = '1' then ['t', 'h'] else ending [units] := by
  split
  · rename_i hteen
    rw [hteen]
    rfl
  · rename_i hteen
    unfold ending
    split <;> simp_all

theorem ending_one_digit : ∀ n < 10, ending [n.digitChar] = endingOf n := by
  decide

theorem ending_two_digits : ∀ tens < 10, ∀ units < 10,
    (if tens.digitChar = '1' then ['t', 'h'] else ending [units.digitChar]) =
      endingOf (10 * tens + units) := by
  decide

theorem ending_spellNat (n : Nat) : ending (spellNat n).reverse = endingOf n := by
  by_cases hsmall : n < 10
  · rw [spellNat_of_lt_ten hsmall]
    exact ending_one_digit n hsmall
  · obtain ⟨front, hfront⟩ := exists_last_digit (n / 10)
    have hreverse : (spellNat n).reverse =
        (n % 10).digitChar :: (n / 10 % 10).digitChar :: front.reverse := by
      rw [spellNat_tens (Nat.le_of_not_lt hsmall), hfront]
      simp
    have hlast : 10 * (n / 10 % 10) + n % 10 = n % 100 := by omega
    rw [hreverse, ending_cons_cons, ending_two_digits _ (by omega) _ (by omega), hlast,
      endingOf_mod]

end Ordinal

/-! ## The law -/

/-- The ordinal of a whole number is the number in digits and the ending that its last two digits
ask for, whatever is known of the language. -/
theorem ordinals_go_by_the_last_two_digits (kind : InflectorKind) (n : Int) :
    kind.inflector.ordinal (spellInt n) = spellInt n ++ Ordinal.endingOf n.natAbs := by
  have hordinal : kind.inflector.ordinal (spellInt n) = Ordinal.ofText (spellInt n) := by
    cases kind <;> rfl
  rw [hordinal, Ordinal.ofText_spellInt, Ordinal.ending_spellNat]

end TextGrammar
