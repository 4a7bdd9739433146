-- Rules: what a symbol of a grammar may become. A rule is a weighted list of segments, and a
-- segment is literal text, a reference to something that expands to text, or a choice between
-- rules written on the spot.
import TextGrammar.Double.Basic

namespace TextGrammar

/-! ## Modifiers -/

/-- A change made to the text that a reference expands to. -/
inductive Modifier where
  /-- Puts the indefinite article in front. -/
  | article
  /-- Makes the last word plural. -/
  | plural
  /-- Makes a number an ordinal. -/
  | ordinal
  /-- Makes the first letter a capital. -/
  | capitalize
  | lower
  | upper
  /-- Makes the first letter of every word a capital. -/
  | title
deriving Repr, DecidableEq

namespace Modifier

/-- The word that names the modifier after a point. -/
def token : Modifier → String
  | article => "a"
  | plural => "s"
  | ordinal => "th"
  | capitalize => "capitalize"
  | lower => "lower"
  | upper => "upper"
  | title => "title"

/-- Every modifier. -/
def all : List Modifier := [article, plural, ordinal, capitalize, lower, upper, title]

/-- The modifier that a word names. -/
def ofToken? (token : String) : Option Modifier := all.find? (·.token == token)

theorem ofToken?_token (m : Modifier) : ofToken? m.token = some m := by
  cases m <;> decide

end Modifier

/-! ## Segments and rules -/

/-- An inclusive range to draw from. -/
inductive DrawRange where
  | number (low high : Int64)
  | letter (low high : Char)
deriving DecidableEq

mutual

/-- A part of a rule. -/
inductive Segment where
  /-- Text that stands for itself. -/
  | literal (text : String)
  /-- The text of a target, changed by each modifier in turn. -/
  | reference (target : Target) (modifiers : List Modifier)
  /-- One of several rules, picked by weight. -/
  | choice (branches : List Rule)

/-- What a reference takes its text from. -/
inductive Target where
  /-- The symbol of this name. -/
  | symbol (name : String)
  /-- The symbol whose name is what `inner` expands to. -/
  | dereference (inner : Segment)
  /-- Text that stands for itself. -/
  | quoted (text : String)
  /-- Segments expanded in a row. -/
  | pattern (segments : List Segment)
  /-- A number or letter drawn from a range. -/
  | range (range : DrawRange)

/-- Segments expanded in a row, picked by weight among the rules beside them. -/
structure Rule where
  segments : List Segment
  weight : Double

end

/-- The weight of a rule that states none. -/
def defaultWeight : Double := .one

/-! ## The symbols that a rule refers to -/

mutual

/-- The names of the symbols that a segment refers to, in order of appearance. The name that a
dereference comes to is not known before expansion; those that it is made of are. -/
def Segment.references : Segment → List String
  | .literal _ => []
  | .reference target _ => target.references
  | .choice branches => Rule.allReferences branches

/-- The names of the symbols that a target refers to. -/
def Target.references : Target → List String
  | .symbol name => [name]
  | .dereference inner => inner.references
  | .quoted _ => []
  | .pattern segments => Segment.allReferences segments
  | .range _ => []

/-- The names of the symbols that a rule refers to. -/
def Rule.references : Rule → List String
  | ⟨segments, _⟩ => Segment.allReferences segments

/-- The names of the symbols that a row of segments refers to. -/
def Segment.allReferences : List Segment → List String
  | [] => []
  | segment :: segments => segment.references ++ Segment.allReferences segments

/-- The names of the symbols that the branches of a choice refer to. -/
def Rule.allReferences : List Rule → List String
  | [] => []
  | rule :: rules => rule.references ++ Rule.allReferences rules

end

end TextGrammar
