-- Expansions side by side: when the walks of two expansions stand in a relation and the one gives
-- something, the other gives the same, and the walks stand in that relation again.
import TextGrammar.Proofs.Phrases

namespace TextGrammar

variable {σ α β : Type}

/-! ## Single actions -/

/-- When the one expansion gives something, so does the other, from walks that stand in a relation
to walks that do. -/
def Alike (R : Walk σ → Walk σ → Prop) (x y : Expansion σ α) : Prop :=
  ∀ a b result last, R a b → x.along a = (.ok result, last) →
    ∃ other, y.along b = (.ok result, other) ∧ R last other

/-- The relation holds of walks with one source, whatever that is. -/
structure SharesSource (R : Walk σ → Walk σ → Prop) : Prop where
  source : ∀ {a b}, R a b → b.source = a.source
  redraw : ∀ {a b}, R a b → ∀ source, R { a with source } { b with source }

section

variable {R : Walk σ → Walk σ → Prop}

theorem alike_pure (a : α) : Alike R (pure a : Expansion σ α) (pure a) := by
  rintro walk other _ _ hR ⟨⟩
  exact ⟨other, rfl, hR⟩

theorem Alike.bind {x y : Expansion σ α} {f g : α → Expansion σ β} (hxy : Alike R x y)
    (hfg : ∀ a, Alike R (f a) (g a)) : Alike R (x >>= f) (y >>= g) := by
  intro walk other b last hR h
  obtain ⟨a, next, ha, h⟩ := along_bind_eq_ok.mp h
  obtain ⟨middle, hmiddle, hR⟩ := hxy _ _ _ _ hR ha
  rw [along_bind_ok hmiddle]
  exact hfg a _ _ _ _ hR h

variable (hR : SharesSource R)
include hR

theorem alike_drawBy (draw : σ → Except DrawFault α × σ) :
    Alike R (Expander.drawBy draw) (Expander.drawBy draw) := by
  intro a b x last hab h
  rw [Expander.along_drawBy] at h ⊢
  rw [hR.source hab]
  obtain ⟨hx, rfl⟩ := Prod.mk.inj h
  exact ⟨_, Prod.ext hx rfl, hR.redraw hab _⟩

variable {e f : Expander σ} (hchance : f.chance = e.chance)
include hchance

/-- What is picked goes by the weights; on whose behalf does not matter. -/
theorem alike_pick (owner other : String) {rules others : List Rule}
    (hweights : others.map (·.weight) = rules.map (·.weight)) :
    Alike R (e.pick owner rules) (f.pick other others) := by
  intro a b n last hab h
  rw [Expander.along_pick] at h ⊢
  rw [hR.source hab, hchance, hweights]
  dsimp only at h ⊢
  cases hpicked : (e.chance.pick (rules.map (·.weight)) a.source).1 with
  | none =>
    rw [hpicked] at h
    cases h
  | some m =>
    rw [hpicked] at h
    cases h
    exact ⟨_, rfl, hR.redraw hab _⟩

theorem alike_draw (range : DrawRange) : Alike R (e.draw range) (f.draw range) := by
  unfold Expander.draw
  rw [hchance]
  cases range with
  | number low high => exact (alike_drawBy hR _).bind fun _ => alike_pure _
  | letter low high => exact (alike_drawBy hR _).bind fun _ => alike_pure _

end

/-! ## Phrases -/

/-- Two expanders that inflect and draw alike, and take their steps alike. -/
structure Expander.Alongside (e f : Expander σ) (R : Walk σ → Walk σ → Prop) : Prop where
  inflector : f.inflector = e.inflector
  chance : f.chance = e.chance
  shares : SharesSource R
  step : Alike R e.step f.step

namespace Expander.Alongside

variable {e f : Expander σ} {R : Walk σ → Walk σ → Prop}
  {enter entered : String → Expansion σ (List Char)} {owner other : String}

/-- A pick among rules is like one among as many rules of the same weights. -/
theorem expandPicked (h : e.Alongside f R) {rules others : List Rule}
    (hweights : others.map (·.weight) = rules.map (·.weight))
    (hrules : ∀ (n : Nat) (rule : Rule), rules[n]? = some rule → ∃ r : Rule, others[n]? = some r ∧
      Alike R ((Phrase.body rule.segments).expand e enter owner)
        ((Phrase.body r.segments).expand f entered other)) :
    Alike R (e.expandPicked enter owner rules) (f.expandPicked entered other others) := by
  refine (alike_pick h.shares h.chance owner other hweights).bind fun n => ?_
  rw [expandNth_eq, expandNth_eq]
  cases hrule : rules[n]? with
  | none =>
    intro _ _ _ _ _ h
    cases h
  | some rule =>
    obtain ⟨r, hr, halike⟩ := hrules n rule hrule
    rw [hr]
    exact halike

/-- One level of symbols: phrases are expanded alike if the symbols in them are. -/
theorem expand (h : e.Alongside f R) (henter : ∀ name, Alike R (enter name) (entered name)) :
    Phrase.Inductive fun phrase => Alike R (phrase.expand e enter owner)
      (phrase.expand f entered other) where
  literal text := by
    rw [expand_literal, expand_literal]
    exact h.step.bind fun _ => alike_pure _
  reference target modifiers ih := by
    rw [expand_reference, expand_reference, h.inflector]
    exact h.step.bind fun _ => ih.bind fun _ => alike_pure _
  choice branches ih := by
    rw [expand_choice, expand_choice]
    refine h.step.bind fun _ => h.expandPicked rfl fun n rule hrule => ?_
    exact ⟨rule, hrule, ih rule (List.mem_of_getElem? hrule)⟩
  symbolTarget name ih := by
    rw [expand_symbolTarget, expand_symbolTarget]
    exact ih
  dereference inner ih := by
    rw [expand_dereference, expand_dereference]
    exact ih.bind fun _ => henter _
  quoted text := by
    rw [expand_quoted, expand_quoted]
    exact alike_pure _
  pattern segments ih := by
    rw [expand_pattern, expand_pattern]
    exact ih
  range range := by
    rw [expand_range, expand_range]
    exact alike_draw h.shares h.chance range
  nil := by
    rw [expand_nil, expand_nil]
    exact alike_pure _
  cons segment segments ihSegment ihRow := by
    rw [expand_cons, expand_cons]
    exact ihSegment.bind fun _ => ihRow.bind fun _ => alike_pure _
  body segments ih := by
    rw [expand_body, expand_body, h.inflector]
    exact ih.bind fun _ => alike_pure _
  symbol name := henter name

end Expander.Alongside

end TextGrammar
