-- Rounding to doubles, and the arithmetic that weighing needs. Each result is the double
-- nearest to the exact result; of two equally near, the one with an even last bit.
import TextGrammar.Double.Basic

namespace TextGrammar

/-! ## Rounding a ratio -/

/-- The whole number nearest to `num / den`, a half going to the even neighbour. -/
def divNearest (num den : Nat) : Nat :=
  let quotient := num / den
  let rest := 2 * (num % den)
  if rest < den || (rest == den && quotient % 2 == 0) then quotient else quotient + 1

/-- The magnitude nearest to `num / den` units, as if magnitudes had no upper limit. -/
def roundUnits (num den : Nat) : Nat :=
  let step := grain (num / den)
  divNearest num (den * step) * step

namespace Double

/-- The double nearest to `num / den` units; infinite when too large. -/
def ofUnits (negative : Bool) (num den : Nat) : Double :=
  if h : Fits (roundUnits num den) then .finite negative ⟨roundUnits num den, h⟩
  else .infinite negative

/-! ## Arithmetic -/

/-- Sum. Zeros of both signs, and numbers that cancel, make the positive zero. -/
def add : Double → Double → Double
  | .nan, _ => .nan
  | _, .nan => .nan
  | .infinite a, .infinite b => if a = b then .infinite a else .nan
  | .infinite a, .finite _ _ => .infinite a
  | .finite _ _, .infinite b => .infinite b
  | .finite a m, .finite b n =>
    let sum := signedUnits a m + signedUnits b n
    if sum = 0 then ofUnits (a && b) 0 1 else ofUnits (decide (sum < 0)) sum.natAbs 1

/-- Product. -/
def mul : Double → Double → Double
  | .nan, _ => .nan
  | _, .nan => .nan
  | .infinite a, .infinite b => .infinite (a != b)
  | .infinite a, .finite b n => if n.units = 0 then .nan else .infinite (a != b)
  | .finite a m, .infinite b => if m.units = 0 then .nan else .infinite (a != b)
  | .finite a m, .finite b n => ofUnits (a != b) (m.units * n.units) unitsPerOne

/-- Quotient. -/
def div : Double → Double → Double
  | .nan, _ => .nan
  | _, .nan => .nan
  | .infinite _, .infinite _ => .nan
  | .infinite a, .finite b _ => .infinite (a != b)
  | .finite a _, .infinite b => ofUnits (a != b) 0 1
  | .finite a m, .finite b n =>
    if n.units = 0 then (if m.units = 0 then .nan else .infinite (a != b))
    else ofUnits (a != b) (m.units * unitsPerOne) n.units

instance : Add Double := ⟨add⟩
instance : Mul Double := ⟨mul⟩
instance : Div Double := ⟨div⟩

end Double

end TextGrammar
