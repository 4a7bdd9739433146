-- Whole numbers in decimal, read and written. A number is read from digits alone, with a sign in
-- front where one is allowed; words of 64 bits are read only within their bounds.

namespace TextGrammar

/-! ## Reading -/

/-- The value of a digit. -/
def digitValue (c : Char) : Nat := c.toNat - '0'.toNat

/-- The number that a run of digits spells. -/
def spelledNat (digits : List Char) : Nat :=
  digits.foldl (fun value c => 10 * value + digitValue c) 0

/-- The number that one or more digits spell. -/
def readNat? (cs : List Char) : Option Nat :=
  if cs.isEmpty || !cs.all Char.isDigit then none else some (spelledNat cs)

/-- The number that digits with an optional sign spell. -/
def readInt? : List Char → Option Int
  | '+' :: cs => (readNat? cs).map Int.ofNat
  | '-' :: cs => (readNat? cs).map fun n => -(n : Int)
  | cs => (readNat? cs).map Int.ofNat

/-- A number of 64 bits with a sign. -/
def readInt64? (cs : List Char) : Option Int64 := do
  let n ← readInt? cs
  if Int64.minValue.toInt ≤ n ∧ n ≤ Int64.maxValue.toInt then some (Int64.ofInt n) else none

/-- A number of 64 bits without a sign; a plus in front is allowed. -/
def readUInt64? (cs : List Char) : Option UInt64 := do
  let n ← readNat? (match cs with
    | '+' :: digits => digits
    | _ => cs)
  if n < UInt64.size then some (UInt64.ofNat n) else none

/-! ## Writing -/

/-- The digits of a number. -/
def spellNat (n : Nat) : List Char := Nat.toDigits 10 n

/-- The digits of a number, after a minus when it is negative. -/
def spellInt (n : Int) : List Char :=
  if n < 0 then '-' :: spellNat n.natAbs else spellNat n.natAbs

end TextGrammar
