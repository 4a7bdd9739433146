-- What compiling keeps. A property that every line keeps holds of the draft at the end; by it, no
-- two symbols of a compiled grammar have one name.
import Mathlib.Data.List.Nodup
import Mathlib.Tactic.SplitIfs
import TextGrammar.Proofs.Answers
import TextGrammar.Source.Compiler

namespace TextGrammar

namespace Draft

/-! ## Properties that every line keeps -/

/-- What every line keeps holds at the end when the reading stops at no error. -/
theorem keeps_readFirst {P : Draft → Prop}
    (hstep : ∀ draft line, P draft → P (draft.step line).1) {draft last : Draft}
    {lines : List (Except SyntaxError Line)} (hdraft : P draft)
    (h : draft.readFirst lines = .ok last) : P last := by
  induction lines generalizing draft with
  | nil =>
    unfold readFirst at h
    split at h
    · cases h
      exact hdraft
    · cases h
  | cons line lines ih =>
    have hnext := hstep draft line hdraft
    unfold readFirst at h
    split at h
    · rename_i next hline
      rw [hline] at hnext
      exact ih hnext h
    · cases h

/-- What every line keeps holds at the end when all lines are read. -/
theorem keeps_readAll {P : Draft → Prop}
    (hstep : ∀ draft line, P draft → P (draft.step line).1) {draft : Draft}
    (lines : List (Except SyntaxError Line)) (hdraft : P draft) : P (draft.readAll lines).1 := by
  induction lines generalizing draft with
  | nil => exact hdraft
  | cons line lines ih => exact ih (hstep draft line hdraft)

/-! ## Names -/

/-- The names of the symbols so far. -/
def names (draft : Draft) : List String := draft.symbols.map (·.name)

theorem declares_iff {draft : Draft} {name : String} :
    draft.declares name = true ↔ name ∈ draft.names := by
  simp [declares, names]

/-- A rule names no symbol. -/
theorem names_rule (draft : Draft) (number indent : Nat) (text : String) :
    (draft.rule number indent text).1.names = draft.names := by
  obtain ⟨finished, block⟩ := draft
  unfold rule
  dsimp only
  split <;> simp [names, symbols]

theorem nodup_heading {draft : Draft} (number : Nat) (name : String) (h : draft.names.Nodup) :
    (draft.heading number name).1.names.Nodup := by
  unfold heading
  dsimp only
  split_ifs with hname hdeclares
  · exact h
  · exact h
  · have hnew : name ∉ draft.names := fun hmem => hdeclares (declares_iff.mpr hmem)
    simpa [names, symbols, List.nodup_append] using ⟨h, fun s hs hsame =>
      hnew (List.mem_map.mpr ⟨s, hs, hsame⟩)⟩

theorem nodup_step (draft : Draft) (line : Except SyntaxError Line) (h : draft.names.Nodup) :
    (draft.step line).1.names.Nodup := by
  unfold step
  split
  · exact h
  · exact nodup_heading _ _ h
  · rw [names_rule]
    exact h

end Draft

/-- No two symbols of a compiled grammar have one name. -/
theorem nodup_names_of_compile {source : String} {g : Grammar}
    (h : Grammar.compile source = .ok g) : (g.symbols.map (·.name)).Nodup := by
  obtain ⟨draft, hdraft, rfl⟩ := map_eq_ok.mp h
  have hstart : Draft.start.names.Nodup := List.nodup_nil
  exact Draft.keeps_readFirst (P := fun draft => draft.names.Nodup) Draft.nodup_step hstart hdraft

/-- In a grammar of distinct names each symbol is found under its own. -/
theorem symbol?_of_nodup {g : Grammar} (h : (g.symbols.map (·.name)).Nodup) {symbol : Symbol}
    (hmem : symbol ∈ g.symbols) : g.symbol? symbol.name = some symbol := by
  cases hfound : g.symbol? symbol.name with
  | none =>
    have hnone := List.find?_eq_none.mp hfound symbol hmem
    simp at hnone
  | some found =>
    have hname : found.name = symbol.name := by simpa using List.find?_some hfound
    rw [List.inj_on_of_nodup_map h (List.mem_of_find?_eq_some hfound) hmem hname]

end TextGrammar
