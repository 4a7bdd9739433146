-- What can be wrong with the source of a grammar, where, and how it is told.

namespace TextGrammar

/-! ## Defects -/

/-- A defect of a grammar's source or of a pattern. -/
inductive SyntaxDefect where
  /-- A rule stands deeper or less deep than the first rule of its symbol. -/
  | badIndentation (symbol : String) (expected found : Nat)
  | ruleBeforeSymbol
  | duplicateSymbol (name : String)
  /-- A symbol is followed by no rule. -/
  | emptySymbol (name : String)
  | invalidSymbolName (name : String)
  | unbalancedBracket (bracket : Char)
  | unclosedQuote (quote : Char)
  | emptyBracket
  | malformedWeight (text : String)
  | negativeWeight (text : String)
  | unknownEscape (escaped : Char)
  /-- Nothing follows an escape character. -/
  | danglingEscape
  | unknownModifier (token : String)
  | unexpectedText (text : String)
  /-- The bounds of a range of letters differ in case. -/
  | invalidRange (text : String)
  | nestingTooDeep (limit : Nat)
deriving Repr, DecidableEq

/-- The wording of a defect. -/
def SyntaxDefect.message : SyntaxDefect → String
  | .badIndentation symbol expected found =>
    s!"indentation of {found} does not match the {expected} established for symbol '{symbol}'"
  | .ruleBeforeSymbol => "production rule given before any symbol"
  | .duplicateSymbol name => s!"symbol '{name}' is declared more than once"
  | .emptySymbol name => s!"symbol '{name}' closed with no production rules"
  | .invalidSymbolName name => s!"invalid symbol name '{name}'"
  | .unbalancedBracket bracket => s!"unbalanced '{bracket}'"
  | .unclosedQuote quote => s!"unclosed quote {quote}"
  | .emptyBracket => "empty brackets"
  | .malformedWeight text => s!"malformed weight '{text}'"
  | .negativeWeight text => s!"weight must be non-negative; was {text}"
  | .unknownEscape escaped => s!"unknown escape sequence '\\{escaped}'"
  | .danglingEscape => "escape character at end of line"
  | .unknownModifier token => s!"unknown modifier '{token}'"
  | .unexpectedText text => s!"unexpected text '{text}'"
  | .invalidRange text => s!"invalid range '{text}'"
  | .nestingTooDeep limit => s!"brackets nested deeper than {limit} levels"

/-! ## Defects with their place -/

/-- A defect at a column of some line; columns count characters from 1. -/
structure Fault where
  column : Nat
  defect : SyntaxDefect
deriving Repr, DecidableEq

/-- A defect at a line, and at a column of it when one is to blame; both count from 1. -/
structure SyntaxError where
  line : Nat
  column : Option Nat
  defect : SyntaxDefect
deriving Repr, DecidableEq

/-- A fault on the given line. -/
def Fault.onLine (line : Nat) (fault : Fault) : SyntaxError :=
  ⟨line, some fault.column, fault.defect⟩

/-- The wording of an error. -/
def SyntaxError.message (error : SyntaxError) : String :=
  match error.column with
  | some column => s!"line {error.line}, column {column}: {error.defect.message}"
  | none => s!"line {error.line}: {error.defect.message}"

end TextGrammar
