-- The law of enclosed bodies. The markers of a body are resolved when it is expanded, and once more
-- by a pattern block or a rule around it. That changes nothing unless a marker was left.
import TextGrammar.Proofs.DeclaredNames
import TextGrammar.Proofs.Derivations
import TextGrammar.Proofs.LeftoverMarkers
import TextGrammar.Proofs.Limits
import TextGrammar.Proofs.SideBySide

namespace TextGrammar

variable {σ : Type}

/-! ## A step later -/

/-- The expander, which one more symbol may be open for and which may take one more step. -/
def Expander.roomier (e : Expander σ) : Expander σ :=
  e.within ⟨e.limits.maxDepth + 1, e.limits.stepBudget.map (· + 1)⟩

/-- The second walk has taken a step more. -/
structure Walk.StepLater (a b : Walk σ) : Prop where
  source : b.source = a.source
  steps : b.steps = a.steps + 1

section

variable {e : Expander σ}

theorem alike_step : Alike Walk.StepLater e.step e.roomier.step := by
  intro a b _ last hlater h
  unfold Expander.step at h ⊢
  rw [along_bind_ok (along_get a)] at h
  rw [along_bind_ok (along_get b), hlater.steps]
  dsimp only [Expander.roomier, Expander.within]
  cases hbudget : e.limits.stepBudget with
  | none =>
    rw [hbudget] at h
    cases h
    exact ⟨_, rfl, hlater.source, rfl⟩
  | some budget =>
    simp only [hbudget, Option.map_some, Nat.add_le_add_iff_right] at h ⊢
    by_cases hspent : budget ≤ a.steps
    · rw [if_pos hspent] at h
      cases h
    · rw [if_neg hspent] at h ⊢
      cases h
      exact ⟨_, rfl, hlater.source, rfl⟩

/-- The roomier expander is alongside a step later. -/
theorem alongside_roomier (e : Expander σ) : e.Alongside e.roomier Walk.StepLater where
  inflector := rfl
  chance := rfl
  shares := ⟨fun h => h.source, fun h _ => ⟨rfl, h.steps⟩⟩
  step := alike_step

theorem alike_enter (room : Nat) : ∀ more, room ≤ more → ∀ name,
    Alike Walk.StepLater (e.enter room name) (e.roomier.enter more name) := by
  induction room with
  | zero =>
    intro more _ name a b text last _ h
    obtain ⟨less, _, _, hroom, _⟩ := Expander.enter_eq_ok h
    cases hroom
  | succ room ih =>
    intro more hmore name a b text last hlater h
    obtain ⟨more, rfl⟩ : ∃ k, more = k + 1 := Nat.exists_eq_add_of_le' (Nat.le_of_add_left_le hmore)
    obtain ⟨less, symbol, before, hroom, hsymbol, hpicked, rfl⟩ := Expander.enter_eq_ok h
    cases hroom
    have hrules : Alike Walk.StepLater (e.expandPicked (e.enter room) name symbol.rules)
        (e.roomier.expandPicked (e.roomier.enter more) name symbol.rules) :=
      (alongside_roomier e).expandPicked rfl fun n rule hrule => ⟨rule, hrule,
        ((alongside_roomier e).expand (ih more (Nat.le_of_succ_le_succ hmore))).all _⟩
    have hopened : Walk.StepLater (Expander.openedWalk a) (Expander.openedWalk b) :=
      ⟨hlater.source, hlater.steps⟩
    obtain ⟨closing, hother, hclosing⟩ := hrules _ _ _ _ hopened hpicked
    rw [e.roomier.along_enter_succ b hsymbol, along_bind_ok hother]
    exact ⟨Expander.closedWalk closing, rfl, hclosing.source, hclosing.steps⟩

end

/-! ## Lone references -/

/-- The expansion gives the text, and leaves the source. -/
structure Expander.Outcome.EndsIn (outcome : Expander.Outcome σ) (text : List Char) (source : σ) :
    Prop where
  result : outcome.result = .ok (String.ofList text)
  source : outcome.walk.source = source

/-- The walk when one step is taken. -/
def steppedWalk (source : σ) : Walk σ := { Walk.start source with steps := 1 }

theorem along_step_start {e : Expander σ} (hbudget : e.limits.stepBudget ≠ some 0) (source : σ) :
    e.step.along (Walk.start source) = (.ok (), steppedWalk source) := by
  unfold Expander.step
  rw [along_bind_ok (along_get _)]
  cases hsome : e.limits.stepBudget with
  | none => rfl
  | some budget =>
    have hpos : ¬budget ≤ (Walk.start source).steps := fun hle =>
      hbudget (by rw [hsome, Nat.le_zero.mp hle])
    simp only [if_neg hpos]
    rfl

/-- A lone reference gives what its target gives, and its markers are resolved. -/
theorem expandRule_lone {e : Expander σ} (hbudget : e.limits.stepBudget ≠ some 0) {target : Target}
    {owner : String} {source : σ} {text : List Char} {last : Walk σ}
    (h : ((Phrase.target target).expand e (e.enter e.limits.maxDepth) owner).along
      (steppedWalk source) = (.ok text, last)) :
    e.expandRule owner target.lone source =
      ⟨.ok (String.ofList (Inline.resolve e.inflector text)), last⟩ := by
  rw [expandRule_eq, Expander.run_eq]
  have halong : (Focus.expand e (.phrase owner (.body target.lone.segments))).along
      (Walk.start source) = (.ok (Inline.resolve e.inflector text), last) := by
    rw [Focus.expand, Target.lone, expand_body, expand_cons, expand_nil, expand_reference]
    simp only [bind_assoc, pure_bind, List.foldl_nil, List.append_nil]
    rw [along_bind_ok (along_step_start hbudget source), along_bind_ok h]
    rfl
  rw [halong]
  rfl

/-! ## The law -/

section

variable {e : Expander σ} {owner : String} {rule : Rule} {source : σ} {text : String}

theorem stepBudget_roomier (e : Expander σ) : e.roomier.limits.stepBudget ≠ some 0 := by
  change e.limits.stepBudget.map (· + 1) ≠ some 0
  cases e.limits.stepBudget with
  | none => exact nofun
  | some budget => simp

/-- What a rule gives its body gives a step later, on whose behalf it may be. -/
theorem exists_later (hresult : (e.expandRule owner rule source).result = .ok text)
    (other : String) {more : Nat} (hmore : e.limits.maxDepth ≤ more) (later : Walk σ)
    (hlater : Walk.StepLater (Walk.start source) later) :
    ∃ last,
      ((Phrase.body rule.segments).expand e.roomier (e.roomier.enter more) other).along later =
        (.ok text.toList, last) ∧
      last.source = (e.expandRule owner rule source).walk.source := by
  rw [expandRule_eq] at hresult ⊢
  obtain ⟨first, hfirst⟩ := run_eq_ok.mp hresult
  have halike : Alike Walk.StepLater
      ((Phrase.body rule.segments).expand e (e.enter e.limits.maxDepth) owner)
      ((Phrase.body rule.segments).expand e.roomier (e.roomier.enter more) other) :=
    ((alongside_roomier e).expand (alike_enter _ more hmore)).all _
  obtain ⟨last, hlast, hsame⟩ := halike _ _ _ _ hlater hfirst
  rw [Expander.run_eq, hfirst]
  exact ⟨last, hlast, hsame.source⟩

/-- The body in a pattern block gives what it gives with the markers resolved. -/
theorem expandRule_pattern (hresult : (e.expandRule owner rule source).result = .ok text)
    (other : String) :
    (e.roomier.expandRule other (Target.pattern rule.segments).lone source).EndsIn
      (Inline.resolve e.inflector text.toList) (e.expandRule owner rule source).walk.source := by
  obtain ⟨last, hlast, hsource⟩ := exists_later hresult other (Nat.le_succ _)
    (steppedWalk source) ⟨rfl, rfl⟩
  rw [← expand_pattern] at hlast
  rw [expandRule_lone (stepBudget_roomier e) hlast]
  exact ⟨rfl, hsource⟩

/-- A symbol that picks the rule gives what that gives with the markers resolved. -/
theorem expandRule_symbol (hresult : (e.expandRule owner rule source).result = .ok text)
    {name : String} {symbol : Symbol} (hsymbol : e.grammar.symbol? name = some symbol) {n : Nat}
    (hrule : symbol.rules[n]? = some rule) {before : σ}
    (hpick : e.chance.pick (symbol.rules.map (·.weight)) before = (some n, source))
    (other : String) :
    (e.roomier.expandRule other (Target.symbol name).lone before).EndsIn
      (Inline.resolve e.inflector text.toList) (e.expandRule owner rule source).walk.source := by
  let opened : Walk σ := Expander.openedWalk (steppedWalk before)
  obtain ⟨last, hlast, hsource⟩ := exists_later hresult name (Nat.le_refl _)
    { opened with source } ⟨rfl, rfl⟩
  have hdrawn : (e.roomier.pick name symbol.rules).along opened =
      (.ok n, { opened with source }) := by
    have hroomier : e.roomier.chance.pick (symbol.rules.map (·.weight)) opened.source =
        (some n, source) := hpick
    rw [Expander.along_pick, hroomier]
    rfl
  have hpicked : (e.roomier.expandPicked (e.roomier.enter e.limits.maxDepth) name
      symbol.rules).along opened = (.ok text.toList, last) := by
    rw [Expander.expandPicked, along_bind_ok hdrawn, expandNth_eq, hrule]
    exact hlast
  have henter : ((Phrase.target (.symbol name)).expand e.roomier
      (e.roomier.enter e.roomier.limits.maxDepth) other).along (steppedWalk before) =
        (.ok text.toList, Expander.closedWalk last) := by
    rw [expand_symbolTarget]
    change (e.roomier.enter (e.limits.maxDepth + 1) name).along _ = _
    rw [e.roomier.along_enter_succ _ hsymbol, along_bind_ok hpicked]
    rfl
  rw [expandRule_lone (stepBudget_roomier e) henter]
  exact ⟨rfl, hsource⟩

end

/-- What resolving the markers of a text gives is left as it is by doing so again when no marker is
left in it, and only then; none is left where no two markers meet. The engine resolves them again
around a body: where a body gives a text, the body in a pattern block without modifiers, and a plain
reference to a symbol that picks it, give the text with its markers resolved, from the same words,
where one more symbol may be open and one more step be taken. That is the same text when no marker
was left in it, and only then where the inflection is one of the two. -/
theorem markers_are_resolved_again :
    (∀ (kind : InflectorKind) (text : List Char),
      Inline.resolve kind.inflector (Inline.resolve kind.inflector text) =
        Inline.resolve kind.inflector text ↔
          Inline.hasMarker (Inline.resolve kind.inflector text) = false) ∧
    (∀ (kind : InflectorKind) (text : List Char), ¬Inline.Knotted text →
      Inline.hasMarker (Inline.resolve kind.inflector text) = false) ∧
    ∀ (e : Expander σ) (owner other : String) (rule : Rule) (source : σ) (text : String),
      (e.expandRule owner rule source).result = .ok text →
      let again := Inline.resolve e.inflector text.toList
      let last := (e.expandRule owner rule source).walk.source
      (e.roomier.expandRule other (Target.pattern rule.segments).lone source).EndsIn again last ∧
      (∀ (name : String) (symbol : Symbol) (n : Nat) (before : σ),
        e.grammar.symbol? name = some symbol → symbol.rules[n]? = some rule →
        e.chance.pick (symbol.rules.map (·.weight)) before = (some n, source) →
        (e.roomier.expandRule other (Target.symbol name).lone before).EndsIn again last) ∧
      (Inline.hasMarker text.toList = false → again = text.toList) ∧
      ∀ kind : InflectorKind, e.inflector = kind.inflector →
        (again = text.toList ↔ Inline.hasMarker text.toList = false) := by
  refine ⟨fun kind text => Inline.resolve_eq_self_iff kind _, fun kind text hknots => ?_, ?_⟩
  · exact Bool.eq_false_iff.mpr fun h => hknots (Inline.knotted_of_hasMarker h)
  · intro e owner other rule source text hresult
    refine ⟨expandRule_pattern hresult other, ?_, Inline.resolve_of_unmarked e.inflector, ?_⟩
    · intro name symbol n before hsymbol hrule hpick
      exact expandRule_symbol hresult hsymbol hrule hpick other
    · intro kind hkind
      rw [hkind]
      exact Inline.resolve_eq_self_iff kind _

/-- A symbol of which the second rule has a marker around a marker. -/
def endings : Symbol := ⟨"ending", [⟨[.literal "y"], .one⟩, ⟨[.literal "((s))"], .one⟩], 1⟩

/-- No symbol may be open, and one step be taken. -/
def endingsExpander : Expander WordList :=
  ⟨⟨[endings]⟩, .ofWords, .english, { maxDepth := 0, stepBudget := some 1 }⟩

/-- The law at a rule that a marker is left of, and at two markers that do not meet. -/
theorem ending_is_resolved_again :
    let rule : Rule := ⟨[.literal "((s))"], .one⟩
    let before : WordList := ⟨[18446744073709551615], 0⟩
    let source : WordList := ⟨[], 1⟩
    ¬Inline.Knotted "a(n) owl(s)".toList ∧
    Inline.hasMarker (Inline.resolve .english "a(n) owl(s)".toList) = false ∧
    (endingsExpander.expandRule "ending" rule source).result = .ok "(s)" ∧
    (endingsExpander.roomier.expandRule "" (Target.pattern rule.segments).lone source).EndsIn
      "s".toList source ∧
    (endingsExpander.roomier.expandRule "" (Target.symbol "ending").lone before).EndsIn
      "s".toList source := by
  intro rule before source
  have hlaw := markers_are_resolved_again (σ := WordList)
  have hknots : ¬Inline.Knotted "a(n) owl(s)".toList := by decide +kernel
  have hresult : (endingsExpander.expandRule "ending" rule source).result = .ok "(s)" := by
    decide +kernel
  have hsource : (endingsExpander.expandRule "ending" rule source).walk.source = source := by
    decide +kernel
  have hagain : Inline.resolve endingsExpander.inflector "(s)".toList = "s".toList := by
    decide +kernel
  have hpick : endingsExpander.chance.pick (endings.rules.map (·.weight)) before =
      (some 1, source) := by
    decide +kernel
  obtain ⟨hpattern, hsymbol, _⟩ :=
    hlaw.2.2 endingsExpander "ending" "" rule source "(s)" hresult
  rw [hagain, hsource] at hpattern
  have hnamed := hsymbol "ending" endings 1 before rfl rfl hpick
  rw [hagain, hsource] at hnamed
  exact ⟨hknots, hlaw.2.1 .full _ hknots, hresult, hpattern, hnamed⟩

/-- Around a marker, a marker is left, and it is resolved the second time. -/
theorem marker_around_a_marker_is_left :
    Inline.resolve .english "((s))".toList = "(s)".toList ∧
    Inline.resolve .english (Inline.resolve .english "((s))".toList) = "s".toList ∧
    ¬∀ (kind : InflectorKind) (text : List Char),
      Inline.resolve kind.inflector (Inline.resolve kind.inflector text) =
        Inline.resolve kind.inflector text := by
  have hfirst : Inline.resolve .english "((s))".toList = "(s)".toList := by decide +kernel
  have hagain : Inline.resolve .english "(s)".toList = "s".toList := by decide +kernel
  refine ⟨hfirst, by rw [hfirst, hagain], fun h => ?_⟩
  have hsame : Inline.resolve .english (Inline.resolve .english "((s))".toList) =
      Inline.resolve .english "((s))".toList := h .full _
  rw [hfirst, hagain] at hsame
  exact absurd hsame (by decide)

end TextGrammar
