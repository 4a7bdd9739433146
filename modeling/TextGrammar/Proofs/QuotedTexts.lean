-- The law of quoted texts. A text in quotes and brackets, with its marks escaped, is read as that
-- text and nothing else. A rule of it gives the text with the inline markers resolved, which is the
-- text itself when it has none.
import TextGrammar.Proofs.EnclosedBodies

namespace TextGrammar

/-! ## Reading -/

theorem Escaped.mono {specials others : List Char} {text : List Char} {cs : List SourceChar}
    (h : Escaped specials text cs) (hsub : others ⊆ specials) : Escaped others text cs where
  plain := h.plain
  stands c hc := ⟨fun mark hmark => (h.stands c hc).noMark mark (hsub hmark),
    (h.stands c hc).escaped⟩

/-- A target in brackets is read as a lone reference to it. -/
theorem yields_lone {target : Target} {written : List Char} {levels : Nat}
    (h : Yields written fun cs => ∃ first rest, cs = first :: rest ∧
      ReadsTarget (readNested levels) target first rest) :
    Yields ('[' :: written ++ [']']) (RuleOf (readNested (levels + 1)) target.lone) := by
  have hblock : Yields ('[' :: written ++ [']'])
      (BlockOf (readNested (levels + 1)) (.reference target [])) := by
    rw [← List.append_nil written]
    refine yields_bracketed (h.append (yields_modifiers []) ?_)
    rintro _ mods ⟨first, rest, rfl, hreads⟩ hmods
    have hpasses : Passes mods := passes_of_plain hmods.isPlain
    exact ⟨hreads.crosses.append hpasses, readBracket_reference hreads hmods⟩
  refine hblock.mono ?_
  rintro _ ⟨opening, interior, closing, rfl, hclosed, hread⟩
  refine ⟨none, ?_, rfl⟩
  exact .block hclosed (hread _) .done

/-- A text in quotes and brackets, where the quote, the escape character and other marks may be
escaped. -/
def quotedPattern (specials : List Char) (text : String) : String :=
  String.ofList ('[' :: ('\'' :: escapeText specials text ++ ['\'']) ++ [']'])

theorem ofPattern_quotedPattern {specials : List Char} (hsub : specials ⊆ specialChars)
    (hmarks : ['\'', escapeChar] ⊆ specials) (text : String) :
    Rule.ofPattern (quotedPattern specials text) = .ok (Target.quoted text).lone := by
  have hescape : escapeChar ∈ specials := hmarks (by simp)
  obtain ⟨levels, hlevels⟩ : ∃ levels, nestingLimit = levels + 1 := ⟨127, rfl⟩
  have htarget : Yields ('\'' :: escapeText specials text ++ ['\'']) fun cs =>
      ∃ first rest, cs = first :: rest ∧
        ReadsTarget (readNested levels) (.quoted text) first rest := by
    refine (yields_quoted (by decide) (yields_escapeText hsub hescape text)).mono ?_
    rintro _ ⟨first, interior, last, rfl, hfirst, hlast, hescaped⟩
    exact ⟨first, _, rfl, readsTarget_quoted hfirst hlast (hescaped.mono hmarks)⟩
  have hrule := yields_lone htarget
  rw [← hlevels] at hrule
  exact ofPattern_of_yields hrule

/-! ## Expanding -/

section

variable {σ : Type} (e : Expander σ) (owner : String) (source : σ) (text : String)

/-- A quoted text by itself gives the text with its markers resolved, and nothing is drawn. -/
theorem expandRule_quoted (hbudget : e.limits.stepBudget ≠ some 0) :
    (e.expandRule owner (Target.quoted text).lone source).EndsIn
      (Inline.resolve e.inflector text.toList) source := by
  have htarget : ((Phrase.target (.quoted text)).expand e (e.enter e.limits.maxDepth) owner).along
      (steppedWalk source) = (.ok text.toList, steppedWalk source) := by
    rw [expand_quoted]
    rfl
  rw [expandRule_lone hbudget htarget]
  exact ⟨rfl, rfl⟩

/-- Without a step nothing is expanded. -/
theorem expandRule_lone_spent (target : Target) (hbudget : e.limits.stepBudget = some 0) :
    e.expandRule owner target.lone source =
      ⟨.error (.stepsExhausted 0), Walk.start source⟩ := by
  have hstep : e.step.along (Walk.start source) =
      (.error (.stepsExhausted 0), Walk.start source) := by
    unfold Expander.step
    rw [along_bind_ok (along_get _), hbudget]
    rfl
  have halong : (Focus.expand e (.phrase owner (.body target.lone.segments))).along
      (Walk.start source) = (.error (.stepsExhausted 0), Walk.start source) := by
    rw [Focus.expand, Target.lone, expand_body, expand_cons, expand_reference]
    simp only [bind_assoc]
    exact along_bind_error hstep
  rw [expandRule_eq, Expander.run_eq, halong]
  rfl

end

/-! ## The law -/

/-- A text in quotes and brackets is read as a lone reference to the text, when the quote and the
escape character are escaped in it, as other marks may be. A rule of it gives the text with its
markers resolved, and nothing is drawn, wherever a step may be taken. So it gives the text itself
when there is no marker in it, and only then where the inflection is one of the two. -/
theorem quoted_texts_are_verbatim_but_for_markers {specials : List Char}
    (hsub : specials ⊆ specialChars) (hmarks : ['\'', escapeChar] ⊆ specials) (text : String) :
    Rule.ofPattern (quotedPattern specials text) = .ok (Target.quoted text).lone ∧
    (∀ {σ : Type} (e : Expander σ) (owner : String) (source : σ),
      (e.limits.stepBudget ≠ some 0 →
        (e.expandRule owner (Target.quoted text).lone source).EndsIn
          (Inline.resolve e.inflector text.toList) source) ∧
      (e.limits.stepBudget = some 0 →
        (e.expandRule owner (Target.quoted text).lone source).result =
          .error (.stepsExhausted 0))) ∧
    (∀ inflector : Inflector, Inline.hasMarker text.toList = false →
      Inline.resolve inflector text.toList = text.toList) ∧
    ∀ kind : InflectorKind, Inline.resolve kind.inflector text.toList = text.toList ↔
      Inline.hasMarker text.toList = false := by
  refine ⟨ofPattern_quotedPattern hsub hmarks text, fun e owner source => ⟨?_, fun hspent => ?_⟩,
    fun inflector => Inline.resolve_of_unmarked inflector,
    fun kind => Inline.resolve_eq_self_iff kind _⟩
  · exact expandRule_quoted e owner source text
  · rw [expandRule_lone_spent e owner source _ hspent]

/-- An expander of no symbols that takes a step. -/
def oneStep : Expander WordList :=
  ⟨⟨[]⟩, .ofWords, .bySpelling, { maxDepth := 0, stepBudget := some 1 }⟩

/-- The law at a text of marks. -/
theorem quoted_marks_are_verbatim :
    let text := "[a|b]^2 \"it's\" (n) \\\n#"
    ['\'', '\\'] ⊆ specialChars ∧ ['\'', escapeChar] ⊆ ['\'', '\\'] ∧
    Rule.ofPattern (quotedPattern ['\'', '\\'] text) = .ok (Target.quoted text).lone ∧
    (oneStep.expandRule Expander.patternOwner (Target.quoted text).lone ⟨[7], 0⟩).EndsIn
      text.toList ⟨[7], 0⟩ := by
  intro text
  have hsub : ['\'', '\\'] ⊆ specialChars := by decide
  have hmarks : ['\'', escapeChar] ⊆ ['\'', '\\'] := by decide
  obtain ⟨hread, hgives, hsame, _⟩ := quoted_texts_are_verbatim_but_for_markers hsub hmarks text
  have hunmarked : Inline.hasMarker text.toList = false := by decide +kernel
  have hresolve : Inline.resolve oneStep.inflector text.toList = text.toList :=
    hsame _ hunmarked
  have hends := (hgives oneStep Expander.patternOwner ⟨[7], 0⟩).1 (by decide)
  rw [hresolve] at hends
  exact ⟨hsub, hmarks, hread, hends⟩

/-- A marker in quotes is resolved like any other. -/
theorem quoted_marker_is_resolved :
    Rule.ofPattern (quotedPattern ['\'', '\\'] "cat(s)") = .ok (Target.quoted "cat(s)").lone ∧
    (oneStep.expandRule Expander.patternOwner (Target.quoted "cat(s)").lone ⟨[], 0⟩).result =
      .ok "cats" ∧
    (oneStep.expandRule Expander.patternOwner (Target.quoted "cat(s)").lone ⟨[], 0⟩).result ≠
      .ok "cat(s)" := by
  have hresult : (oneStep.expandRule Expander.patternOwner (Target.quoted "cat(s)").lone
      ⟨[], 0⟩).result = .ok "cats" := by
    decide +kernel
  refine ⟨ofPattern_quotedPattern (by decide) (by decide) _, hresult, ?_⟩
  rw [hresult]
  decide

end TextGrammar
