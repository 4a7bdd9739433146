-- Decimal notation of doubles, read: digits with at most one point, an optional sign and an
-- optional exponent, and the names of infinity and of not-a-number.
import TextGrammar.Double.Round
import TextGrammar.Numeral

namespace TextGrammar

/-! ## Digits -/

/-- Digits with at most one point, and at least one digit: `4`, `0.5`, `.25`, `3.`. -/
def isDecimal (cs : List Char) : Bool :=
  cs.all (fun c => c.isDigit || c == '.') && cs.any Char.isDigit && cs.count '.' ≤ 1

namespace Double

/-! ## Powers of ten -/

/-- Beyond this power of ten a number is infinite, and below its inverse it is zero. -/
def powerLimit : Int := 400

/-- The double nearest to `digits * 10 ^ power`. -/
def ofScientific (negative : Bool) (digits : Nat) (power : Int) : Double :=
  let top := power + (spellNat digits).length
  if digits = 0 || top < -powerLimit then ofUnits negative 0 1
  else if powerLimit < top then .infinite negative
  else if 0 ≤ power then ofUnits negative (digits * Nat.pow 10 power.toNat * unitsPerOne) 1
  else ofUnits negative (digits * unitsPerOne) (Nat.pow 10 (-power).toNat)

/-! ## Reading -/

/-- The double nearest to a decimal: a point moves the power of ten by the digits after it. -/
def ofDecimal (negative : Bool) (cs : List Char) (power : Int) : Double :=
  let places := ((cs.dropWhile (· != '.')).drop 1).length
  ofScientific negative (spelledNat (cs.filter (· != '.'))) (power - places)

/-- The names of the numbers that are not finite; the case of their letters is free. -/
def named? (negative : Bool) (cs : List Char) : Option Double :=
  match String.ofList (cs.map Char.toLower) with
  | "inf" | "infinity" => some (.infinite negative)
  | "nan" => some .nan
  | _ => none

/-- Reads a number without its sign. -/
def readUnsigned? (negative : Bool) (cs : List Char) : Option Double :=
  let (decimal, rest) := cs.span fun c => c != 'e' && c != 'E'
  if isDecimal decimal then
    match rest with
    | [] => some (ofDecimal negative decimal 0)
    | _ :: power => (readInt? power).map (ofDecimal negative decimal)
  else named? negative cs

/-- Reads a number, with correct rounding. -/
def read? : List Char → Option Double
  | '-' :: cs => readUnsigned? true cs
  | '+' :: cs => readUnsigned? false cs
  | cs => readUnsigned? false cs

end Double

end TextGrammar
