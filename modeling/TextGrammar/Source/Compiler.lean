-- Grammars compiled from their source. A source can be compiled up to its first defect, or to
-- the end with all defects collected; both read the lines through one step.
import TextGrammar.Grammar
import TextGrammar.Source.Line
import TextGrammar.Source.RuleReader

namespace TextGrammar

/-! ## Grammars in the making -/

/-- Where the rules on the coming lines belong. -/
inductive OpenBlock where
  /-- No heading stands above. -/
  | nowhere
  /-- The heading above is at fault; the rules are read and dropped. -/
  | rejected
  /-- A symbol; whether a rule line has followed its heading, readable or not. -/
  | accepted (symbol : Symbol) (sawRule : Bool)

/-- What has been compiled so far: the symbols that are complete, and the open block. -/
structure Draft where
  finished : List Symbol
  block : OpenBlock

namespace Draft

/-- Nothing compiled yet. -/
def start : Draft := ⟨[], .nowhere⟩

/-- The symbols in order, the open one last. -/
def symbols (draft : Draft) : List Symbol :=
  match draft.block with
  | .accepted symbol _ => draft.finished ++ [symbol]
  | _ => draft.finished

/-- An accepted heading has declared the name. -/
def declares (draft : Draft) (name : String) : Bool := draft.symbols.any (·.name == name)

/-- The defect of the open block when it ends here: a symbol that no rule line followed. -/
def closingErrors (draft : Draft) : List SyntaxError :=
  match draft.block with
  | .accepted symbol false => [⟨symbol.line, none, .emptySymbol symbol.name⟩]
  | _ => []

/-- Ends the open block and opens the one of a heading. -/
def heading (draft : Draft) (number : Nat) (name : String) : Draft × List SyntaxError :=
  let symbols := draft.symbols
  let reject (defect : SyntaxDefect) : Draft × List SyntaxError :=
    (⟨symbols, .rejected⟩, draft.closingErrors ++ [⟨number, some 1, defect⟩])
  if !isSymbolName name.toList then reject (.invalidSymbolName name)
  else if draft.declares name then reject (.duplicateSymbol name)
  else (⟨symbols, .accepted ⟨name, [], number⟩ false⟩, draft.closingErrors)

/-- Reads a rule into the open block. -/
def rule (draft : Draft) (number indent : Nat) (text : String) : Draft × List SyntaxError :=
  let read := (Rule.read (indent + 1) text.toList).mapError (Fault.onLine number)
  match draft.block, read with
  | .nowhere, _ => (draft, [⟨number, some (indent + 1), .ruleBeforeSymbol⟩])
  | .rejected, .ok _ => (draft, [])
  | .rejected, .error error => (draft, [error])
  | .accepted symbol _, .ok rule =>
    (⟨draft.finished, .accepted ⟨symbol.name, symbol.rules ++ [rule], symbol.line⟩ true⟩, [])
  | .accepted symbol _, .error error => (⟨draft.finished, .accepted symbol true⟩, [error])

/-- Reads one line, and gives the errors that it brings to light. -/
def step (draft : Draft) : Except SyntaxError Line → Draft × List SyntaxError
  | .error error => (draft, [error])
  | .ok ⟨number, .heading name⟩ => draft.heading number name
  | .ok ⟨number, .rule indent text⟩ => draft.rule number indent text

/-- Reads lines to the first error, or to the end. -/
def readFirst (draft : Draft) : List (Except SyntaxError Line) → Except SyntaxError Draft
  | [] =>
    match draft.closingErrors with
    | [] => .ok draft
    | error :: _ => .error error
  | line :: lines =>
    match draft.step line with
    | (next, []) => next.readFirst lines
    | (_, error :: _) => .error error

/-- Reads all lines and collects the errors. -/
def readAll (draft : Draft) : List (Except SyntaxError Line) → Draft × List SyntaxError
  | [] => (draft, draft.closingErrors)
  | line :: lines =>
    let (next, errors) := draft.step line
    let (last, later) := next.readAll lines
    (last, errors ++ later)

end Draft

/-! ## Compiling -/

namespace Grammar

/-- Compiles a source, stopping at its first defect. -/
def compile (source : String) : Except SyntaxError Grammar :=
  (Draft.start.readFirst (sourceLines source)).map fun draft => ⟨draft.symbols⟩

/-- Compiles a source, collecting all its defects in order. -/
def validate (source : String) : Except (List SyntaxError) Grammar :=
  match Draft.start.readAll (sourceLines source) with
  | (draft, []) => .ok ⟨draft.symbols⟩
  | (_, errors) => .error errors

end Grammar

end TextGrammar
