-- Expansion: from a symbol, a pattern or a rule of a grammar to text. An expansion draws from a
-- chance, opens the symbols that it meets, and takes one step for each segment; how many symbols
-- may be open at once and how many steps may be taken can be limited.
import TextGrammar.Chance.Basic
import TextGrammar.Expansion.Error
import TextGrammar.Grammar
import TextGrammar.Inflection.Inline
import TextGrammar.Source.RuleReader

namespace TextGrammar

/-! ## Limits and progress -/

/-- How far one expansion may go. -/
structure Limits where
  /-- How many symbols may be open at once. -/
  maxDepth : Nat := 256
  /-- How many segments may be expanded; any number when none is given. -/
  stepBudget : Option Nat := none
deriving Repr, DecidableEq

/-- How far an expansion has come. -/
structure Walk (σ : Type) where
  /-- The state of the chance. -/
  source : σ
  /-- How many symbols are open. -/
  depth : Nat
  /-- The most symbols that were open at once. -/
  deepest : Nat
  /-- How many segments were expanded. -/
  steps : Nat

/-- An expansion about to start. -/
def Walk.start {σ : Type} (source : σ) : Walk σ := ⟨source, 0, 0, 0⟩

/-- A part of an expansion. When it fails, what it has drawn stays drawn. -/
abbrev Expansion (σ α : Type) : Type := ExceptT ExpansionError (StateM (Walk σ)) α

/-- All that an expansion goes by. -/
structure Expander (σ : Type) where
  grammar : Grammar
  chance : Chance σ
  inflector : Inflector := .english
  limits : Limits := {}

namespace Expander

variable {σ : Type} (e : Expander σ)

/-! ## Single actions -/

/-- Takes a step, unless the budget is spent. -/
def step : Expansion σ Unit := do
  let walk ← get
  match e.limits.stepBudget with
  | some budget => if budget ≤ walk.steps then throw (.stepsExhausted budget)
  | none => pure ()
  set { walk with steps := walk.steps + 1 }

/-- Picks among rules, on behalf of a symbol, the number of one. -/
def pick (owner : String) (rules : List Rule) : Expansion σ Nat := do
  let walk ← get
  let (picked, source) := e.chance.pick (rules.map (·.weight)) walk.source
  set { walk with source }
  match picked with
  | some n => pure n
  | none => throw (.emptyChoice owner)

/-- Makes a draw. -/
def drawBy {α : Type} (draw : σ → Except DrawFault α × σ) : Expansion σ α := do
  let walk ← get
  let (drawn, source) := draw walk.source
  set { walk with source }
  match drawn with
  | .ok x => pure x
  | .error fault => throw (.draw fault)

/-- Draws from a range, and writes down what was drawn. -/
def draw : DrawRange → Expansion σ (List Char)
  | .number low high => do
    let n ← drawBy (e.chance.number low high)
    pure (spellInt n.toInt)
  | .letter low high => do
    let c ← drawBy (e.chance.letter low high)
    pure [c]

end Expander

/-- The text that a modifier makes of a text. -/
def Inflector.modify (inflector : Inflector) (text : List Char) : Modifier → List Char
  | .article => (inflector.article text).letters ++ ' ' :: text
  | .plural => inflector.plural text
  | .ordinal => inflector.ordinal text
  | .capitalize => capitalize text
  | .lower => Unicode.lowerText text
  | .upper => Unicode.upperText text
  | .title => titleCase true text

/-! ## Segments -/

section

variable {σ : Type} (e : Expander σ) (enter : String → Expansion σ (List Char)) (owner : String)

mutual

/-- Expands a segment of a rule of the symbol `owner`; `enter` expands the symbols it names. -/
def Segment.expand : Segment → Expansion σ (List Char)
  | .literal text => do
    e.step
    pure text.toList
  | .reference target modifiers => do
    e.step
    let text ← target.expand
    pure (modifiers.foldl e.inflector.modify text)
  | .choice branches => do
    e.step
    let picked ← e.pick owner branches
    Rule.expandNth picked branches

/-- Expands a target. -/
def Target.expand : Target → Expansion σ (List Char)
  | .symbol name => enter name
  | .dereference inner => do
    let name ← inner.expand
    enter (String.ofList (trim name))
  | .quoted text => pure text.toList
  | .pattern segments => do
    let text ← Segment.expandAll segments
    pure (Inline.resolve e.inflector text)
  | .range range => e.draw range

/-- Expands a rule: its segments in a row, with the inline markers of the whole resolved. -/
def Rule.expand : Rule → Expansion σ (List Char)
  | ⟨segments, _⟩ => do
    let text ← Segment.expandAll segments
    pure (Inline.resolve e.inflector text)

/-- Expands segments in a row. -/
def Segment.expandAll : List Segment → Expansion σ (List Char)
  | [] => pure []
  | segment :: segments => do
    let first ← segment.expand
    let rest ← Segment.expandAll segments
    pure (first ++ rest)

/-- Expands the rule of a given number. -/
def Rule.expandNth : Nat → List Rule → Expansion σ (List Char)
  | _, [] => throw (.emptyChoice owner)
  | 0, rule :: _ => rule.expand
  | n + 1, _ :: rules => Rule.expandNth n rules

end

end

/-! ## Symbols -/

namespace Expander

variable {σ : Type} (e : Expander σ)

/-- The symbol of a name. -/
def declared (name : String) : Expansion σ Symbol :=
  match e.grammar.symbol? name with
  | some symbol => pure symbol
  | none => throw (.unknownSymbol name)

/-- Opens a symbol. -/
def openSymbol : Expansion σ Unit :=
  modify fun walk =>
    { walk with depth := walk.depth + 1, deepest := max walk.deepest (walk.depth + 1) }

/-- Closes the symbol opened last. -/
def closeSymbol : Expansion σ Unit :=
  modify fun walk => { walk with depth := walk.depth - 1 }

/-- Expands the symbol of a name when `room` more symbols may be open. -/
def enter : (room : Nat) → String → Expansion σ (List Char)
  | 0, name => do
    let _ ← e.declared name
    let walk ← get
    throw (.recursionLimit name (walk.depth + 1))
  | room + 1, name => do
    let symbol ← e.declared name
    openSymbol
    let picked ← e.pick name symbol.rules
    let text ← Rule.expandNth e (enter room) name picked symbol.rules
    closeSymbol
    pure text

/-! ## Whole expansions -/

/-- The end of an expansion: a text or an error, and how far it came. -/
structure Outcome (σ : Type) where
  result : Except ExpansionError String
  walk : Walk σ

/-- Runs an expansion from its start. -/
def run (expansion : Expansion σ (List Char)) (source : σ) : Outcome σ :=
  let (result, walk) := (expansion.run.run (Walk.start source) : Except _ _ × _)
  ⟨result.map String.ofList, walk⟩

/-- Expands the symbol of a name. -/
def expandSymbol (name : String) (source : σ) : Outcome σ :=
  run (e.enter e.limits.maxDepth name) source

/-- Expands one rule on behalf of a symbol, whatever its weight. -/
def expandRule (owner : String) (rule : Rule) (source : σ) : Outcome σ :=
  run (rule.expand e (e.enter e.limits.maxDepth) owner) source

/-- The symbol on whose behalf a pattern is expanded. -/
def patternOwner : String := "<pattern>"

/-- Expands an input: the symbol of that name, or else a pattern. -/
def expand (input : String) (source : σ) : Outcome σ :=
  if e.grammar.contains input then e.expandSymbol input source
  else
    match Rule.ofPattern input with
    | .ok rule => e.expandRule patternOwner rule source
    | .error error => ⟨.error (.pattern error), Walk.start source⟩

/-! ## Every rule -/

/-- A rule of a symbol and what it expanded to. -/
structure Trial where
  symbol : Symbol
  rule : Rule
  result : Except ExpansionError String

/-- Expands each of some rules from where the one before left the source. -/
def tryRules : List (Symbol × Rule) → σ → List Trial × σ
  | [], source => ([], source)
  | (symbol, rule) :: rules, source =>
    let outcome := e.expandRule symbol.name rule source
    let (trials, last) := tryRules rules outcome.walk.source
    (⟨symbol, rule, outcome.result⟩ :: trials, last)

/-- Expands every rule of every symbol once, in order of declaration and whatever its weight;
only the first `limit` of them when a limit is given. -/
def tryAll (limit : Option Nat) (source : σ) : List Trial × σ :=
  let rules := e.grammar.rules
  e.tryRules (limit.elim rules rules.take) source

end Expander

end TextGrammar
