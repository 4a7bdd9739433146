-- Depth is kept: after a part of an expansion that succeeds, as many symbols are open as before.
-- What opens a symbol closes it, and nothing else touches the count.
import TextGrammar.Proofs.Phrases

namespace TextGrammar

variable {σ α β : Type}

/-! ## Expansions that keep the depth -/

/-- When the expansion succeeds, as many symbols are open after it as before. -/
def KeepsDepth (x : Expansion σ α) : Prop :=
  ∀ walk a next, x.along walk = (.ok a, next) → next.depth = walk.depth

/-- The action leaves the count of open symbols alone, whether it succeeds or fails. -/
def KeepsCount (x : Expansion σ α) : Prop := ∀ walk, (x.along walk).2.depth = walk.depth

theorem KeepsCount.keepsDepth {x : Expansion σ α} (h : KeepsCount x) : KeepsDepth x := by
  intro walk a next hx
  have hcount := h walk
  rwa [hx] at hcount

theorem KeepsCount.bind {x : Expansion σ α} {f : α → Expansion σ β} (hx : KeepsCount x)
    (hf : ∀ a, KeepsCount (f a)) : KeepsCount (x >>= f) := by
  intro walk
  have hcount := hx walk
  rw [along_bind]
  cases hresult : x.along walk with
  | mk result next =>
    rw [hresult] at hcount
    cases result with
    | error error => exact hcount
    | ok a => exact (hf a next).trans hcount

theorem keepsCount_pure (a : α) : KeepsCount (pure a : Expansion σ α) := fun _ => rfl

theorem KeepsDepth.bind {x : Expansion σ α} {f : α → Expansion σ β} (hx : KeepsDepth x)
    (hf : ∀ a, KeepsDepth (f a)) : KeepsDepth (x >>= f) := by
  intro walk b last h
  obtain ⟨a, next, ha, h⟩ := along_bind_eq_ok.mp h
  rw [hf a next b last h, hx walk a next ha]

theorem keepsDepth_pure (a : α) : KeepsDepth (pure a : Expansion σ α) :=
  (keepsCount_pure a).keepsDepth

theorem keepsDepth_throw (error : ExpansionError) :
    KeepsDepth (throw error : Expansion σ α) := by
  intro walk a next h
  cases h

section

variable (e : Expander σ)

theorem keepsCount_step : KeepsCount e.step := by
  intro walk
  rcases e.along_step walk with ⟨budget, _, hstep⟩ | hstep <;> rw [hstep]

theorem keepsCount_pick (owner : String) (rules : List Rule) : KeepsCount (e.pick owner rules) := by
  intro walk
  rw [e.along_pick]

theorem keepsCount_drawBy (draw : σ → Except DrawFault α × σ) :
    KeepsCount (Expander.drawBy draw) := by
  intro walk
  rw [Expander.along_drawBy]

theorem keepsCount_draw (range : DrawRange) : KeepsCount (e.draw range) := by
  cases range with
  | number low high => exact (keepsCount_drawBy _).bind fun _ => keepsCount_pure _
  | letter low high => exact (keepsCount_drawBy _).bind fun _ => keepsCount_pure _

theorem keepsDepth_compositional : e.Compositional KeepsDepth where
  pure := keepsDepth_pure
  bind := KeepsDepth.bind
  step := (keepsCount_step e).keepsDepth
  pick owner rules := (keepsCount_pick e owner rules).keepsDepth
  emptyChoice _ := keepsDepth_throw _

/-- One level of symbols: phrases keep the depth if the symbols in them do. -/
theorem keepsDepth_expand {enter : String → Expansion σ (List Char)}
    (henter : ∀ name, KeepsDepth (enter name)) (owner : String) (phrase : Phrase) :
    KeepsDepth (phrase.expand e enter owner) :=
  ((keepsDepth_compositional e).expand henter).all phrase
    fun range _ => (keepsCount_draw e range).keepsDepth

/-- A symbol that opens closes again. -/
theorem keepsDepth_enter (room : Nat) : ∀ name, KeepsDepth (e.enter room name) := by
  induction room with
  | zero =>
    intro name walk text last h
    obtain ⟨less, _, _, hroom, _⟩ := Expander.enter_eq_ok h
    cases hroom
  | succ room ih =>
    intro name walk text last h
    obtain ⟨less, symbol, before, hroom, _, hpicked, rfl⟩ := Expander.enter_eq_ok h
    cases hroom
    have hkeeps : KeepsDepth (e.expandPicked (e.enter room) name symbol.rules) :=
      (keepsDepth_compositional e).expandPicked fun rule _ =>
        keepsDepth_expand e ih name (.body rule.segments)
    -- What was opened is closed: the count is one more inside.
    have hbefore : before.depth = walk.depth + 1 := hkeeps _ _ _ hpicked
    change before.depth - 1 = walk.depth
    omega

/-- Every phrase keeps the depth. -/
theorem keepsDepth_phrase (room : Nat) (owner : String) (phrase : Phrase) :
    KeepsDepth (phrase.expand e (e.enter room) owner) :=
  keepsDepth_expand e (keepsDepth_enter e room) owner phrase

end

end TextGrammar
