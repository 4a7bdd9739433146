-- Sets of characters as tables. A table lists inclusive ranges of code points in
-- increasing order; a character is in the set when one of the ranges holds it.

namespace TextGrammar.Unicode

/-- A table of inclusive ranges of code points holds `c`. -/
def inRanges (table : List (Nat × Nat)) (c : Char) : Bool :=
  table.any fun (first, last) => first ≤ c.toNat && c.toNat ≤ last

/-- Code points from `first` to `last`, `step` apart. -/
structure Stretch where
  first : Nat
  last : Nat
  step : Nat
deriving Repr, DecidableEq

/-- The stretch holds the code point `n`. -/
def Stretch.holds (s : Stretch) (n : Nat) : Bool :=
  s.first ≤ n && n ≤ s.last && (n - s.first) % s.step == 0

theorem inRanges_iff {table : List (Nat × Nat)} {c : Char} :
    inRanges table c = true ↔ ∃ r ∈ table, r.1 ≤ c.toNat ∧ c.toNat ≤ r.2 := by
  simp [inRanges]

end TextGrammar.Unicode
