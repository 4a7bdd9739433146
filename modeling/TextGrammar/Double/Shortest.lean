-- Decimal notation of doubles, written: the fewest digits that read back as the same double,
-- of those the nearest, and always in positional notation.
import TextGrammar.Double.Decimal

namespace TextGrammar

/-- The number `digits * 10 ^ power`. -/
structure Scientific where
  digits : Nat
  power : Int
deriving Repr, DecidableEq

/-! ## Writing it down -/

/-- Positional notation, without a point when nothing follows it. -/
def Scientific.positional (s : Scientific) : List Char :=
  let digits := spellNat s.digits
  let places := (-s.power).toNat
  if s.power ≥ 0 then digits ++ List.replicate s.power.toNat '0'
  else if places < digits.length then
    digits.take (digits.length - places) ++ '.' :: digits.drop (digits.length - places)
  else '0' :: '.' :: List.replicate (places - digits.length) '0' ++ digits

namespace Double

/-! ## Choosing the digits -/

/-- The number of digits of `n`; 0 has one. -/
def digitCount (n : Nat) : Nat := (spellNat n).length

/-- The least power of ten above a positive magnitude. -/
def powerAbove (units : Nat) : Int :=
  if unitsPerOne ≤ units then digitCount (units / unitsPerOne)
  else 1 - (digitCount ((unitsPerOne - 1) / units) : Int)

/-- The number reads back as the magnitude. -/
def readsAs (m : Magnitude) (s : Scientific) : Bool :=
  ofScientific false s.digits s.power == .finite false m

/-- The neighbours of the magnitude among the multiples of `10 ^ power`, the nearer first; of
two equally near, the larger. -/
def neighbours (m : Magnitude) (power : Int) : List Scientific :=
  let num := if power < 0 then m.units * Nat.pow 10 (-power).toNat else m.units
  let den := if power < 0 then unitsPerOne else unitsPerOne * Nat.pow 10 power.toNat
  let below : Scientific := ⟨num / den, power⟩
  let above : Scientific := ⟨num / den + 1, power⟩
  if 2 * (num % den) < den then [below, above] else [above, below]

/-- The magnitude itself, in as many digits as that takes. -/
def exactly (m : Magnitude) : Scientific := ⟨m.units * Nat.pow 5 oneBits, -(oneBits : Int)⟩

/-- No double needs more significant digits. -/
def mostDigits : Nat := 17

/-- The shortest number that reads back as a positive magnitude. The multiples of the power of
ten above it come first, then those with one digit, with two, and so on. -/
def shortest (m : Magnitude) : Scientific :=
  let grids := (List.range (mostDigits + 1)).map fun (n : Nat) => powerAbove m.units - n
  ((grids.flatMap (neighbours m)).find? (readsAs m)).getD (exactly m)

/-! ## The text of a double -/

/-- The text of a double. -/
def toText : Double → List Char
  | .nan => "NaN".toList
  | .infinite negative => (if negative then "-inf" else "inf").toList
  | .finite negative m =>
    (if negative then ['-'] else []) ++ (if m.units = 0 then ['0'] else (shortest m).positional)

end Double

end TextGrammar
