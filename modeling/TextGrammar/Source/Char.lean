-- The characters of a rule's text after its escapes are resolved. Each keeps its column and
-- whether it was escaped, so that an escaped character is never taken for a mark of the rule.
import TextGrammar.Rule.Escape
import TextGrammar.Source.Error
import TextGrammar.Unicode.WhiteSpace

namespace TextGrammar

/-- A character of a rule's text. -/
structure SourceChar where
  char : Char
  /-- It was written with the escape character in front, and stands for itself. -/
  escaped : Bool
  /-- Where it was written; an escaped character is where its escape character is. -/
  column : Nat
deriving Repr, DecidableEq

namespace SourceChar

/-- The mark `mark`: the same character, not escaped. -/
def is (c : SourceChar) (mark : Char) : Bool := !c.escaped && c.char == mark

/-- White space that was not written as an escape. -/
def isBlank (c : SourceChar) : Bool := !c.escaped && Unicode.isWhiteSpace c.char

/-- Without the blanks at the start. -/
def trimStart (cs : List SourceChar) : List SourceChar := cs.dropWhile isBlank

/-- Without the blanks at the end. -/
def trimEnd (cs : List SourceChar) : List SourceChar := (cs.reverse.dropWhile isBlank).reverse

/-- The characters as plain text. -/
def plain (cs : List SourceChar) : List Char := cs.map char

/-- The characters as plain text. -/
def text (cs : List SourceChar) : String := String.ofList (plain cs)

/-- Resolves the escapes of a text whose first character stands in `column`. -/
def resolve (column : Nat) : List Char → Except Fault (List SourceChar)
  | [] => .ok []
  | c :: cs =>
    if c = escapeChar then
      match cs with
      | [] => .error ⟨column, .danglingEscape⟩
      | letter :: rest =>
        match escaped? letter with
        | some meant => (resolve (column + 2) rest).map (⟨meant, true, column⟩ :: ·)
        | none => .error ⟨column, .unknownEscape letter⟩
    else (resolve (column + 1) cs).map (⟨c, false, column⟩ :: ·)

end SourceChar

end TextGrammar
