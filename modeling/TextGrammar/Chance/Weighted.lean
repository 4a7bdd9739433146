-- Weighted choice. Each item gets a part of the line from zero to the sum of the weights, as
-- long as its weight, and a random point of the line picks the item whose part it is in. Items
-- of weight zero have no part. The weights are first divided by the largest, so that their sum
-- is a double.
import TextGrammar.Chance.WordSource
import TextGrammar.Double.Round

namespace TextGrammar

/-- The weights divided by the largest of them, when that is positive and finite and no quotient
is below zero. -/
def shares? (weights : List Double) : Option (List Double) :=
  let largest := weights.foldl Double.max .zero
  if Double.zero.lt largest && largest.isFinite then
    let shares := weights.map (· / largest)
    if shares.all Double.zero.le then some shares else none
  else none

/-- Where the part of each item ends on the line, when the first starts at `start`. -/
def runningSums (start : Double) : List Double → List Double
  | [] => []
  | share :: shares => (start + share) :: runningSums (start + share) shares

/-- A point of the unit line, from zero up to but not including one: the first 52 bits of a
word. -/
def unitPoint (word : UInt64) : Double :=
  .ofUnits false ((word >>> 12).toNat * Double.unitsPerOne) (twoPow 52)

/-- The item whose part of the line holds the point that a word gives; at the latest the last.
The line is at least one long, so the point stays below its end. -/
def itemAt (shares : List Double) (word : UInt64) : Nat :=
  let ends := runningSums .zero shares
  let point := unitPoint word * ends.getLastD .zero
  ends.dropLast.findIdx point.lt

/-- The number of an item picked by weight. When nothing can be picked, no word is taken. -/
def pickWeighted {σ : Type} [WordSource σ] (weights : List Double) (source : σ) : Option Nat × σ :=
  match shares? weights with
  | none => (none, source)
  | some shares =>
    let (word, source) := WordSource.word64 source
    (some (itemAt shares word), source)

end TextGrammar
