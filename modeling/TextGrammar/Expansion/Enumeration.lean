-- Enumeration: the rules of a grammar one after another, each expanded when it is asked for. What
-- is kept between two rules is which of them comes next and the source, and nothing else: how deep
-- an expansion went and how many steps it took ends with it.
import TextGrammar.Expansion.Basic

namespace TextGrammar

namespace Expander

/-- Where an enumeration stands: the position of a symbol, that of the rule of it that comes next,
and the source as the rules so far have left it. -/
structure Cursor (σ : Type) where
  symbol : Nat
  rule : Nat
  source : σ

/-- An enumeration before its first rule. -/
def Cursor.start {σ : Type} (source : σ) : Cursor σ := ⟨0, 0, source⟩

variable {σ : Type} (e : Expander σ)

/-- Expands the rule that comes next, if there is one. A symbol of which no rule is left is passed
over, and so is one that has none. -/
def nextTrial (cursor : Cursor σ) : Option Trial × Cursor σ :=
  if hsymbol : cursor.symbol < e.grammar.symbols.length then
    let symbol := e.grammar.symbols[cursor.symbol]
    match symbol.rules[cursor.rule]? with
    | some rule =>
      let outcome := e.expandRule symbol.name rule cursor.source
      (some ⟨symbol, rule, outcome.result⟩, ⟨cursor.symbol, cursor.rule + 1, outcome.walk.source⟩)
    | none => nextTrial ⟨cursor.symbol + 1, 0, cursor.source⟩
  else (none, cursor)
termination_by e.grammar.symbols.length - cursor.symbol

end Expander

end TextGrammar
