-- The lines of a grammar's source. A line without indentation is the heading of a symbol, an
-- indented one is a rule of the symbol above it. Comments, blank lines and white space at the
-- end of a line mean nothing. The first rule of a symbol fixes the indentation of the others.
import TextGrammar.Rule.Escape
import TextGrammar.Source.Error
import TextGrammar.Unicode.WhiteSpace

namespace TextGrammar

/-! ## Comments -/

/-- Starts a comment, which ends with its line. -/
def commentMark : Char := '#'

/-- A line up to the first comment mark that is not escaped; `escaped` says that the first
character is. -/
def cutComment (escaped : Bool) : List Char → List Char
  | [] => []
  | c :: cs =>
    if escaped then c :: cutComment false cs
    else if c = commentMark then []
    else c :: cutComment (c == escapeChar) cs

/-- A line without its comment. -/
def stripComment (line : List Char) : List Char := cutComment false line

/-! ## Lines -/

/-- The lines of a text, without the line feed that ends each, or the carriage return and line
feed. Nothing after the last line feed is no line. -/
def rawLines : List Char → List (List Char)
  | [] => []
  | '\n' :: cs => [] :: rawLines cs
  | '\r' :: '\n' :: cs => [] :: rawLines cs
  | c :: cs =>
    match rawLines cs with
    | [] => [[c]]
    | line :: lines => (c :: line) :: lines

/-- What a line of source is for. -/
inductive LineKind where
  /-- Opens the symbol of this name. -/
  | heading (name : String)
  /-- A rule, behind this many characters of white space. -/
  | rule (indent : Nat) (text : String)
deriving Repr, DecidableEq

/-- A line that means something, with its number, counted from 1. -/
structure Line where
  number : Nat
  kind : LineKind
deriving Repr, DecidableEq

/-- What a raw line is for; nothing when no more than a comment stands on it. -/
def LineKind.ofRaw? (raw : List Char) : Option LineKind :=
  let content := trimEnd (stripComment raw)
  let body := trimStart content
  let indent := content.length - body.length
  if body.isEmpty then none
  else if indent = 0 then some (.heading (String.ofList body))
  else some (.rule indent (String.ofList body))

/-- The lines that mean something, where the first raw line has the given number. -/
def Line.ofRaw (number : Nat) : List (List Char) → List Line
  | [] => []
  | raw :: raws =>
    match LineKind.ofRaw? raw with
    | some kind => ⟨number, kind⟩ :: Line.ofRaw (number + 1) raws
    | none => Line.ofRaw (number + 1) raws

/-! ## Indentation -/

/-- The symbol whose rules are being read, and the indentation that its first rule fixed. -/
structure OpenSymbol where
  name : String
  indent : Option Nat
deriving Repr, DecidableEq

/-- Each line in turn, or the error that its indentation is. An ill-indented rule fixes
nothing. -/
def checkIndents (current : Option OpenSymbol) : List Line → List (Except SyntaxError Line)
  | [] => []
  | line :: lines =>
    match line.kind, current with
    | .heading name, _ => .ok line :: checkIndents (some ⟨name, none⟩) lines
    | .rule _ _, none => .ok line :: checkIndents none lines
    | .rule indent _, some ⟨name, none⟩ =>
      .ok line :: checkIndents (some ⟨name, some indent⟩) lines
    | .rule indent _, some ⟨name, some expected⟩ =>
      (if indent = expected then .ok line
      else .error ⟨line.number, some 1, .badIndentation name expected indent⟩) ::
        checkIndents current lines

/-- The lines of a source that mean something. -/
def sourceLines (source : String) : List (Except SyntaxError Line) :=
  checkIndents none (Line.ofRaw 1 (rawLines source.toList))

end TextGrammar
