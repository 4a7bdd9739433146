-- Checks of a compiled grammar: references to symbols that are not declared, and symbols that can
-- never be expanded to text. A symbol is productive when one of its rules of positive weight is
-- made of segments that finish; the productive symbols are found by passes over all symbols, which
-- start from none.
import TextGrammar.Grammar

namespace TextGrammar

/-! ## Issues -/

/-- What a check finds. Each names a symbol and the line that declares it. -/
inductive LintIssue where
  /-- A rule of the symbol refers to `target`, which is not declared. -/
  | undefinedReference (symbol : String) (line : Nat) (target : String)
  /-- No rule of the symbol has a positive weight. -/
  | zeroWeight (symbol : String) (line : Nat)
  /-- No way of expanding the symbol comes to an end. -/
  | noExit (symbol : String) (line : Nat)
deriving Repr, DecidableEq

namespace LintIssue

/-- The symbol at fault. -/
def symbol : LintIssue → String
  | undefinedReference symbol _ _ => symbol
  | zeroWeight symbol _ => symbol
  | noExit symbol _ => symbol

/-- The line that declares it. -/
def line : LintIssue → Nat
  | undefinedReference _ line _ => line
  | zeroWeight _ line => line
  | noExit _ line => line

/-- The name that is not declared, where that is the issue. -/
def target? : LintIssue → Option String
  | undefinedReference _ _ target => some target
  | _ => none

/-- The wording of an issue. -/
def message : LintIssue → String
  | undefinedReference symbol line target =>
    s!"line {line}: symbol '{symbol}' refers to undeclared symbol '{target}'"
  | zeroWeight symbol line => s!"line {line}: every rule of '{symbol}' has weight 0"
  | noExit symbol line => s!"line {line}: symbol '{symbol}' can never finish expanding"

end LintIssue

/-! ## Segments that finish -/

section

variable (finishes : String → Bool)

mutual

/-- A segment comes to an end when the symbols that `finishes` holds of do. Of a dereference only
the name is looked at, for the symbol is not known. -/
def Segment.finishesWith : Segment → Bool
  | .literal _ => true
  | .reference target _ => target.finishesWith
  | .choice branches => Rule.anyFinishesWith branches

/-- A target comes to an end. -/
def Target.finishesWith : Target → Bool
  | .symbol name => finishes name
  | .dereference inner => inner.finishesWith
  | .quoted _ => true
  | .pattern segments => Segment.allFinishWith segments
  | .range _ => true

/-- A rule can be picked, and comes to an end. -/
def Rule.finishesWith : Rule → Bool
  | ⟨segments, weight⟩ => Double.zero.lt weight && Segment.allFinishWith segments

/-- Each of the segments comes to an end. -/
def Segment.allFinishWith : List Segment → Bool
  | [] => true
  | segment :: segments => segment.finishesWith && Segment.allFinishWith segments

/-- One of the rules can be picked, and comes to an end. -/
def Rule.anyFinishesWith : List Rule → Bool
  | [] => false
  | rule :: rules => rule.finishesWith || Rule.anyFinishesWith rules

end

end

namespace Grammar

variable (g : Grammar)

/-! ## Productive symbols -/

/-- A symbol is known to finish from now on when one of its rules finishes with the names known
so far. Names that are not declared are another issue, and count as known. -/
def learn (known : List String) (symbol : Symbol) : List String :=
  if known.contains symbol.name then known
  else if symbol.rules.any (Rule.finishesWith fun name => known.contains name || !g.contains name)
  then symbol.name :: known
  else known

/-- The names known to finish after a pass over the symbols, in order of declaration. -/
def pass (known : List String) : List String := g.symbols.foldl g.learn known

/-- Passes until one brings nothing new, and at most as many as given. -/
def passesFrom (known : List String) : Nat → List String
  | 0 => known
  | passes + 1 =>
    let next := g.pass known
    if next.length = known.length then known else passesFrom next passes

/-- The names of the symbols that have a derivation of positive weights that ends. Each pass but
the last adds a name, so there are no more passes to make than symbols. -/
def productive : List String := g.passesFrom [] g.symbols.length

/-! ## Checks -/

/-- The names that a symbol refers to without their being declared, each once, in order. -/
def undefinedIn (symbol : Symbol) : List String :=
  ((symbol.rules.flatMap Rule.references).filter fun name => !g.contains name).eraseDups

/-- No rule of a symbol has a positive weight. -/
def weighsNothing (symbol : Symbol) : Bool :=
  symbol.rules.all fun rule => rule.weight.le .zero

/-- The issues of a grammar, by kind, and those of one kind in order of declaration. A symbol
that weighs nothing is not reported again for having no exit. -/
def lint : List LintIssue :=
  let undefined := g.symbols.flatMap fun s =>
    (g.undefinedIn s).map (LintIssue.undefinedReference s.name s.line)
  let weightless := g.symbols.filter weighsNothing
  let productive := g.productive
  let stuck := g.symbols.filter fun s =>
    !productive.contains s.name && !weightless.any (·.name == s.name)
  undefined ++ weightless.map (fun s => .zeroWeight s.name s.line) ++
    stuck.map (fun s => .noExit s.name s.line)

end Grammar

end TextGrammar
