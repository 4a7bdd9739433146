-- Why an expansion fails, and how it is told.
import TextGrammar.Chance.Range
import TextGrammar.Source.Error

namespace TextGrammar

/-- Why an expansion fails. -/
inductive ExpansionError where
  | unknownSymbol (name : String)
  /-- Nothing can be picked among the rules of a symbol, or in a choice within them. -/
  | emptyChoice (symbol : String)
  /-- A symbol would be the `depth`-th to be open at once, which is one too many. -/
  | recursionLimit (symbol : String) (depth : Nat)
  /-- Every step of the budget is spent. -/
  | stepsExhausted (budget : Nat)
  /-- The input is no symbol and cannot be read as a pattern. -/
  | pattern (error : SyntaxError)
  | draw (fault : DrawFault)
deriving Repr, DecidableEq

/-- The wording of a failed draw. -/
def DrawFault.message : DrawFault → String
  | .emptyRange => "cannot draw from an empty range"
  | .exhausted => "the random source gave no usable word"

/-- The wording of an error. -/
def ExpansionError.message : ExpansionError → String
  | .unknownSymbol name => s!"unknown symbol '{name}'"
  | .emptyChoice symbol => s!"every choice for '{symbol}' has zero weight"
  | .recursionLimit symbol depth =>
    s!"recursion limit exceeded while expanding '{symbol}' (depth {depth})"
  | .stepsExhausted budget => s!"step budget of {budget} exhausted"
  | .pattern error => s!"invalid pattern: {error.message}"
  | .draw fault => fault.message

end TextGrammar
