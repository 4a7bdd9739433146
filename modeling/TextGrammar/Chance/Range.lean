-- Even draws from a range. A random word times the size of the range falls into one of as many
-- parts as the range has members; words at the rim, which would favour some members, are
-- rejected and drawn anew.
import TextGrammar.Chance.WordSource

namespace TextGrammar

/-- Why a draw has no result. -/
inductive DrawFault where
  /-- The low bound of the range is above the high one. -/
  | emptyRange
  /-- The source gave nothing but rejected words. -/
  | exhausted
deriving Repr, DecidableEq

variable {σ : Type}

/-- How many words a draw may reject. -/
def rejectionLimit : Nat := Nat.pow 2 64

/-- Takes words until the low part of word times `size` is at most `zone`, and gives the high
part, which is below `size`. Words and parts have `bits` bits. -/
def drawBelow (take : σ → Nat × σ) (bits size zone : Nat) :
    (tries : Nat) → σ → Except DrawFault Nat × σ
  | 0, source => (.error .exhausted, source)
  | tries + 1, source =>
    let (word, source) := take source
    if word * size % Nat.pow 2 bits ≤ zone then (.ok (word * size / Nat.pow 2 bits), source)
    else drawBelow take bits size zone tries source

variable [WordSource σ]

/-! ## Numbers -/

/-- A number between two bounds. Between the extremes of 64 bits it is a word as it comes. -/
def drawNumber (low high : Int64) (source : σ) : Except DrawFault Int64 × σ :=
  if high < low then (.error .emptyRange, source)
  else
    let size := high.toUInt64 - low.toUInt64 + 1
    let take := fun source : σ =>
      let (word, source) := WordSource.word64 source
      (word.toNat, source)
    if size = 0 then
      let (word, source) := WordSource.word64 source
      (.ok word.toInt64, source)
    else
      let zone := (size <<< (63 - size.log2)) - 1
      let (drawn, source) := drawBelow take 64 size.toNat zone.toNat rejectionLimit source
      (drawn.map fun offset => Int64.ofInt (low.toInt + offset), source)

/-! ## Letters -/

/-- The first code point that stands for no character, and how many of them follow. -/
def surrogateStart : Nat := 0xD800

/-- How many code points stand for no character. -/
def surrogateCount : Nat := 0x800

/-- The number of a character when the code points that stand for none are left out. -/
def charRank (c : Char) : Nat :=
  if c.toNat < surrogateStart then c.toNat else c.toNat - surrogateCount

/-- The character of a number. -/
def charOfRank (n : Nat) : Char :=
  Char.ofNat (if n < surrogateStart then n else n + surrogateCount)

/-- A character between two bounds. -/
def drawLetter (low high : Char) (source : σ) : Except DrawFault Char × σ :=
  if high < low then (.error .emptyRange, source)
  else
    let size := charRank high - charRank low + 1
    let zone := Nat.pow 2 32 - 1 - (Nat.pow 2 32 - size) % size
    let take := fun source : σ =>
      let (word, source) := WordSource.word32 source
      (word.toNat, source)
    let (drawn, source) := drawBelow take 32 size zone rejectionLimit source
    (drawn.map fun offset => charOfRank (charRank low + offset), source)

end TextGrammar
