-- Chance: what expansion asks of a random source. Any way to pick an item by weight and to draw
-- from a range will do; a source of random words is one.
import TextGrammar.Chance.Range
import TextGrammar.Chance.Weighted

namespace TextGrammar

/-- Ways to draw, with a state of type `σ` that each draw may change. -/
structure Chance (σ : Type) where
  /-- The number of one of the items with these weights, unless none can be picked. -/
  pick : List Double → σ → Option Nat × σ
  /-- A number between two bounds. -/
  number : Int64 → Int64 → σ → Except DrawFault Int64 × σ
  /-- A character between two bounds. -/
  letter : Char → Char → σ → Except DrawFault Char × σ

/-- Draws by random words. -/
def Chance.ofWords {σ : Type} [WordSource σ] : Chance σ := ⟨pickWeighted, drawNumber, drawLetter⟩

end TextGrammar
