-- Grammars: symbols with their rules, in order of declaration. A name finds the first symbol
-- that was declared under it. Symbols refer to each other by name alone.
import TextGrammar.Rule.Equality

namespace TextGrammar

/-- A name and what it may become. -/
structure Symbol where
  name : String
  rules : List Rule
  /-- The line that declares it, counted from 1; 0 when no source does. -/
  line : Nat := 0

instance : BEq Symbol := ⟨fun a b => a.name == b.name && a.rules == b.rules && a.line == b.line⟩

/-- A list of symbols; the first is where generation starts. -/
structure Grammar where
  symbols : List Symbol

namespace Grammar

/-- The grammar of no symbols. -/
def empty : Grammar := ⟨[]⟩

/-- The first symbol declared under `name`. -/
def symbol? (g : Grammar) (name : String) : Option Symbol :=
  g.symbols.find? (·.name == name)

/-- A symbol is declared under `name`. -/
def contains (g : Grammar) (name : String) : Bool := g.symbols.any (·.name == name)

/-- The first symbol. -/
def start? (g : Grammar) : Option Symbol := g.symbols.head?

/-- Every rule with its symbol, in order of declaration. -/
def rules (g : Grammar) : List (Symbol × Rule) :=
  g.symbols.flatMap fun s => s.rules.map (s, ·)

/-- The number of symbols. -/
def size (g : Grammar) : Nat := g.symbols.length

/-- No symbol is declared. -/
def isEmpty (g : Grammar) : Bool := g.symbols.isEmpty

theorem contains_iff {g : Grammar} {name : String} :
    g.contains name = true ↔ ∃ s ∈ g.symbols, s.name = name := by
  simp [contains]

theorem symbol?_isSome {g : Grammar} {name : String} :
    (g.symbol? name).isSome = g.contains name := by
  rw [Bool.eq_iff_iff, symbol?, List.find?_isSome, contains, List.any_eq_true]

end Grammar

end TextGrammar
