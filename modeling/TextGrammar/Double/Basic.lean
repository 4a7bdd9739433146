-- Doubles: the numbers that weights are. A finite double is a sign and a whole count of the
-- smallest positive double, 2^-1074, so the order of doubles is the order of whole numbers,
-- and every operation is a step of exact arithmetic followed by one rounding.

namespace TextGrammar

/-! ## Magnitudes -/

/-- Two to the power `n`. -/
def twoPow (n : Nat) : Nat := Nat.pow 2 n

theorem twoPow_pos (n : Nat) : 0 < twoPow n := Nat.two_pow_pos n

theorem twoPow_lt {m n : Nat} (h : m < n) : twoPow m < twoPow n :=
  Nat.pow_lt_pow_right (by decide) h

theorem log2_twoPow (n : Nat) : (twoPow n).log2 = n := Nat.log2_two_pow

/-- The distance between neighbouring doubles at `units`: a double keeps 53 significant bits. -/
def grain (units : Nat) : Nat := twoPow (units.log2 - 52)

/-- How many bits a count of units has at most: 2^1024 is the first power of two that is too
large for a double. -/
def unitBits : Nat := 1074 + 1024

/-- Some double has the magnitude `units`. -/
def Fits (units : Nat) : Prop := units < twoPow unitBits ∧ units % grain units = 0

instance (units : Nat) : Decidable (Fits units) := inferInstanceAs (Decidable (_ ∧ _))

theorem fits_zero : Fits 0 := ⟨twoPow_pos _, Nat.zero_mod _⟩

theorem fits_twoPow {n : Nat} (h : n < unitBits) : Fits (twoPow n) := by
  refine ⟨twoPow_lt h, ?_⟩
  rw [grain, log2_twoPow]
  exact Nat.mod_eq_zero_of_dvd (Nat.pow_dvd_pow 2 (Nat.sub_le n 52))

/-- What a finite double is without its sign. -/
structure Magnitude where
  /-- How many times 2^-1074 it is. -/
  units : Nat
  fits : Fits units
deriving DecidableEq

/-- A number of IEEE 754's 64-bit format. Zero has two signs; not-a-number has one form. -/
inductive Double where
  | nan
  | infinite (negative : Bool)
  | finite (negative : Bool) (magnitude : Magnitude)
deriving DecidableEq

namespace Double

/-- One is this power of two of units. -/
def oneBits : Nat := 1074

/-- How many units make one. -/
def unitsPerOne : Nat := twoPow oneBits

/-- The positive zero. -/
def zero : Double := .finite false ⟨0, fits_zero⟩

/-- The number one. -/
def one : Double := .finite false ⟨unitsPerOne, fits_twoPow (by decide)⟩

instance : Inhabited Double := ⟨zero⟩

/-- Neither infinite nor not-a-number. -/
def isFinite : Double → Bool
  | .finite _ _ => true
  | _ => false

/-! ## Order -/

/-- The value of a finite double as a signed count of units; the two zeros have one value. -/
def signedUnits : Bool → Magnitude → Int
  | true, m => -(m.units : Int)
  | false, m => m.units

/-- Comparison. Not-a-number compares with nothing, not even with itself. -/
def compare? : Double → Double → Option Ordering
  | .nan, _ => none
  | _, .nan => none
  | .infinite a, .infinite b => some (if a = b then .eq else if a then .lt else .gt)
  | .infinite a, .finite _ _ => some (if a then .lt else .gt)
  | .finite _ _, .infinite b => some (if b then .gt else .lt)
  | .finite a m, .finite b n => some (compare (signedUnits a m) (signedUnits b n))

/-- Smaller. -/
def lt (x y : Double) : Bool := compare? x y == some .lt

/-- Smaller or equal. -/
def le (x y : Double) : Bool := compare? x y == some .lt || compare? x y == some .eq

/-- Equal as numbers: the two zeros are, and not-a-number is not equal to itself. -/
def numEq (x y : Double) : Bool := compare? x y == some .eq

/-- The larger of two numbers. Not-a-number gives way to the other. -/
def max (x y : Double) : Double :=
  match x, y with
  | .nan, _ => y
  | _, .nan => x
  | _, _ => if lt x y then y else x

end Double

end TextGrammar
