-- The text of a rule: the notation that a grammar's source is written in. Characters that the
-- notation gives a meaning are escaped where they stand for themselves.
import TextGrammar.Double.Shortest
import TextGrammar.Rule.Basic
import TextGrammar.Rule.Escape

namespace TextGrammar

/-! ## The parts of a reference -/

/-- The two bounds with a hyphen between them. -/
def DrawRange.spell : DrawRange → List Char
  | .number low high => spellInt low.toInt ++ '-' :: spellInt high.toInt
  | .letter low high => [low, '-', high]

/-- A point and a word for each modifier. -/
def Modifier.spellAll (modifiers : List Modifier) : List Char :=
  modifiers.flatMap fun m => '.' :: m.token.toList

/-- The weight of a rule after a caret; nothing for the weight of a rule that states none. -/
def spellWeight (weight : Double) : List Char :=
  if weight.numEq defaultWeight then [] else '^' :: weight.toText

/-! ## Segments and rules -/

mutual

/-- The text of a segment. -/
def Segment.spell : Segment → List Char
  | .literal text => escapeText specialChars text
  | .reference target modifiers => '[' :: target.spell ++ Modifier.spellAll modifiers ++ [']']
  | .choice branches => '[' :: Rule.spellBranches branches ++ [']']

/-- The text of a target, without the brackets around it. -/
def Target.spell : Target → List Char
  | .symbol name => name.toList
  | .dereference inner => inner.spell
  | .quoted text => '\'' :: escapeText ['\'', '\\'] text ++ ['\'']
  | .pattern segments => '"' :: Segment.spellAll segments ++ ['"']
  | .range range => range.spell

/-- The text of a rule. -/
def Rule.spell : Rule → List Char
  | ⟨segments, weight⟩ => Segment.spellAll segments ++ spellWeight weight

/-- The text of a row of segments. -/
def Segment.spellAll : List Segment → List Char
  | [] => []
  | segment :: segments => segment.spell ++ Segment.spellAll segments

/-- The text of the branches of a choice, with bars between them. -/
def Rule.spellBranches : List Rule → List Char
  | [] => []
  | [rule] => rule.spell
  | rule :: rules => rule.spell ++ '|' :: Rule.spellBranches rules

end

/-- The text of a rule. -/
def Rule.text (rule : Rule) : String := String.ofList rule.spell

end TextGrammar
