-- The laws of open symbols. An expansion ends, at every moment no more symbols are open than may
-- be, whatever succeeds closes all that it opened, and the recursion limit is reported exactly
-- when a declared symbol comes up while as many are open as may be.
import TextGrammar.Proofs.Answers
import TextGrammar.Proofs.Machine

namespace TextGrammar

variable {σ : Type}

/-! ## Starts -/

/-- What an expansion may start from. -/
inductive Start where
  | symbol (name : String)
  | rule (owner : String) (rule : Rule)
  /-- A symbol's name, or else a pattern. -/
  | input (text : String)

namespace Start

/-- How the expansion ends. -/
def outcome (e : Expander σ) (source : σ) : Start → Expander.Outcome σ
  | .symbol name => e.expandSymbol name source
  | .rule owner r => e.expandRule owner r source
  | .input text => e.expand text source

/-- What is at hand first. -/
def focus (g : Grammar) : Start → Focus
  | .symbol name => .phrase name (.symbol name)
  | .rule owner r => .phrase owner (.body r.segments)
  | .input text =>
    if g.contains text then .phrase text (.symbol text)
    else
      match Rule.ofPattern text with
      | .ok r => .phrase Expander.patternOwner (.body r.segments)
      | .error error => .error (.pattern error)

/-- The first moment. -/
def moment (e : Expander σ) (source : σ) (start : Start) : Moment σ :=
  ⟨start.focus e.grammar, [], Walk.start source⟩

end Start

/-- What is left to do when this is at hand and no symbol is open. -/
def Focus.expand (e : Expander σ) : Focus → Expansion σ (List Char)
  | .phrase owner p => p.expand e (e.enter e.limits.maxDepth) owner
  | .text t => pure t
  | .error failure => throw failure

/-- The requests of what is at hand. -/
def Focus.requests : Focus → List Request
  | .phrase _ p => p.requests
  | _ => []

section

variable (e : Expander σ) (source : σ) (start : Start)

theorem expandRule_eq (owner : String) (rule : Rule) :
    e.expandRule owner rule source =
      Expander.run ((Focus.phrase owner (.body rule.segments)).expand e) source := by
  obtain ⟨segments, weight⟩ := rule
  unfold Expander.expandRule
  rw [Rule.expand]
  rfl

/-- An expansion is the one of its first focus. -/
theorem outcome_eq_run :
    start.outcome e source = Expander.run ((start.focus e.grammar).expand e) source := by
  cases start with
  | symbol name => rfl
  | rule owner rule => exact expandRule_eq e source owner rule
  | input text =>
    simp only [Start.outcome, Start.focus, Expander.expand]
    by_cases hdeclared : e.grammar.contains text
    · rw [if_pos hdeclared, if_pos hdeclared]
      rfl
    · rw [if_neg hdeclared, if_neg hdeclared]
      cases Rule.ofPattern text with
      | ok rule => exact expandRule_eq e source _ rule
      | error error => rfl

/-- Only a pattern that cannot be read fails at once. -/
theorem pattern_of_focus {g : Grammar} {start : Start} {error : ExpansionError}
    (h : start.focus g = .error error) : ∃ failure, error = .pattern failure := by
  cases start with
  | symbol name => cases h
  | rule owner rule => cases h
  | input text =>
    simp only [Start.focus] at h
    split at h
    · cases h
    · split at h
      · cases h
      · cases h
        exact ⟨_, rfl⟩

theorem arrives_focus (focus : Focus) :
    Arrives e ⟨focus, [], Walk.start source⟩ [] ((focus.expand e).along (Walk.start source)) := by
  cases focus with
  | phrase owner phrase => exact simulates_phrase phrase [] _ (Nat.zero_add _)
  | text text => exact .refl
  | error error => exact ⟨_, .refl⟩

/-- Steps lead from the first moment to the end of the expansion. -/
theorem exists_last : ∃ last, e.Steps (start.moment e source) last ∧ e.next last = none ∧
    last.outcome? = some (start.outcome e source) := by
  have harrives := arrives_focus e source (start.focus e.grammar)
  rw [outcome_eq_run, Expander.run_eq]
  cases hresult : ((start.focus e.grammar).expand e).along (Walk.start source) with
  | mk result last =>
    rw [hresult] at harrives
    cases result with
    | ok text => exact ⟨_, harrives, rfl, rfl⟩
    | error error =>
      obtain ⟨left, hsteps⟩ := harrives
      exact ⟨_, hsteps, rfl, rfl⟩

end

/-! ## Open symbols at every moment -/

/-- As many symbols are counted as are open, and no more than may be. -/
structure Moment.Balanced (maxDepth : Nat) (moment : Moment σ) : Prop where
  counted : moment.walk.depth = moment.openSymbols
  within : moment.openSymbols ≤ maxDepth

section

variable {maxDepth : Nat} {focus : Focus} {frames : List Frame} {walk next : Walk σ}

/-- What is at hand does not matter. -/
theorem Moment.Balanced.refocus (h : Balanced maxDepth ⟨focus, frames, walk⟩)
    (hdepth : next.depth = walk.depth) (other : Focus) :
    Balanced maxDepth ⟨other, frames, next⟩ :=
  ⟨hdepth.trans h.counted, h.within⟩

theorem openSymbols_symbol (focus : Focus) (name : String) (frames : List Frame) (walk : Walk σ) :
    (⟨focus, .symbol name :: frames, walk⟩ : Moment σ).openSymbols =
      (⟨focus, frames, walk⟩ : Moment σ).openSymbols + 1 :=
  List.countP_cons_of_pos rfl

/-- A frame that is no symbol does not matter. -/
theorem balanced_cons {frame : Frame} (hframe : frame.isSymbol = false) :
    Moment.Balanced maxDepth ⟨focus, frame :: frames, walk⟩ ↔
      Moment.Balanced maxDepth ⟨focus, frames, walk⟩ := by
  have hopen : (⟨focus, frame :: frames, walk⟩ : Moment σ).openSymbols =
      (⟨focus, frames, walk⟩ : Moment σ).openSymbols :=
    List.countP_cons_of_neg (by simp [hframe])
  constructor
  · exact fun h => ⟨hopen ▸ h.counted, hopen ▸ h.within⟩
  · exact fun h => ⟨hopen ▸ h.counted, hopen ▸ h.within⟩

theorem balanced_act {α : Type} {x : Expansion σ α} {go : α → Walk σ → Moment σ}
    (hx : KeepsCount x) (h : Moment.Balanced maxDepth ⟨focus, frames, walk⟩)
    (hgo : ∀ a next, next.depth = walk.depth → Moment.Balanced maxDepth (go a next)) :
    Moment.Balanced maxDepth (.act x frames walk go) := by
  have hcount := hx walk
  unfold Moment.act
  cases hresult : x.along walk with
  | mk result next =>
    rw [hresult] at hcount
    cases result with
    | error error => exact h.refocus hcount _
    | ok a => exact hgo a next hcount

theorem balanced_ofRule {owner : String} {rules : List Rule} {n : Nat}
    (h : Moment.Balanced maxDepth ⟨focus, frames, walk⟩) (hdepth : next.depth = walk.depth) :
    Moment.Balanced maxDepth (.ofRule owner rules frames n next) := by
  unfold Moment.ofRule
  cases rules[n]? with
  | none => exact h.refocus hdepth _
  | some rule => exact h.refocus hdepth _

variable {e : Expander σ} {owner : String}

theorem balanced_beginSegment (h : Moment.Balanced maxDepth ⟨focus, frames, walk⟩)
    (segment : Segment) : Moment.Balanced maxDepth (e.beginSegment owner frames walk segment) := by
  cases segment with
  | literal text => exact h.refocus rfl _
  | reference target modifiers => exact (balanced_cons rfl).mpr (h.refocus rfl _)
  | choice branches =>
    exact balanced_act (keepsCount_pick e _ _) h fun n next hdepth => balanced_ofRule h hdepth

theorem balanced_beginTarget (h : Moment.Balanced maxDepth ⟨focus, frames, walk⟩)
    (target : Target) : Moment.Balanced maxDepth (e.beginTarget owner frames walk target) := by
  cases target with
  | symbol name => exact h.refocus rfl _
  | dereference inner => exact (balanced_cons rfl).mpr (h.refocus rfl _)
  | quoted text => exact h.refocus rfl _
  | pattern segments => exact h.refocus rfl _
  | range range =>
    exact balanced_act (keepsCount_draw e range) h fun text next hdepth => h.refocus hdepth _

/-- A symbol is opened only when one more may be open. -/
theorem balanced_beginSymbol (h : Moment.Balanced e.limits.maxDepth ⟨focus, frames, walk⟩)
    (name : String) : Moment.Balanced e.limits.maxDepth (e.beginSymbol name frames walk) := by
  unfold Expander.beginSymbol
  cases e.grammar.symbol? name with
  | none => exact h.refocus rfl _
  | some symbol =>
    by_cases hlimit : e.limits.maxDepth < walk.depth + 1
    · simp only [if_pos hlimit]
      exact h.refocus rfl _
    · simp only [if_neg hlimit]
      have hcounted : walk.depth = (⟨focus, frames, walk⟩ : Moment σ).openSymbols := h.counted
      have hopen : (⟨focus, .symbol name :: frames, Expander.openedWalk walk⟩ :
          Moment σ).openSymbols = walk.depth + 1 :=
        (openSymbols_symbol ..).trans (congrArg (· + 1) hcounted.symm)
      have hopened : Moment.Balanced e.limits.maxDepth
          ⟨focus, .symbol name :: frames, Expander.openedWalk walk⟩ :=
        ⟨hopen.symm, by omega⟩
      exact balanced_act (keepsCount_pick e _ _) hopened fun n next hdepth =>
        balanced_ofRule hopened hdepth

theorem balanced_begin (h : Moment.Balanced e.limits.maxDepth ⟨focus, frames, walk⟩)
    (phrase : Phrase) : Moment.Balanced e.limits.maxDepth (e.begin owner frames walk phrase) := by
  cases phrase with
  | segment segment =>
    exact balanced_act (keepsCount_step e) h fun _ next hdepth =>
      balanced_beginSegment (h.refocus hdepth focus) segment
  | target target => exact balanced_beginTarget h target
  | row segments =>
    cases segments with
    | nil => exact h.refocus rfl _
    | cons segment segments => exact (balanced_cons rfl).mpr (h.refocus rfl _)
  | body segments => exact (balanced_cons rfl).mpr (h.refocus rfl _)
  | symbol name => exact balanced_beginSymbol h name

/-- The frame that resumes is gone; if it was a symbol, one less is open and counted. -/
theorem balanced_resume {text : List Char} {frame : Frame}
    (h : Moment.Balanced maxDepth ⟨focus, frame :: frames, walk⟩) :
    Moment.Balanced maxDepth (e.resume text frames walk frame) := by
  cases frame with
  | symbol name =>
    obtain ⟨hcounted, hwithin⟩ := h
    rw [openSymbols_symbol] at hcounted hwithin
    refine ⟨?_, Nat.le_of_succ_le hwithin⟩
    change walk.depth - 1 = (⟨focus, frames, walk⟩ : Moment σ).openSymbols
    change walk.depth = _ at hcounted
    omega
  | body => exact ((balanced_cons rfl).mp h).refocus rfl _
  | row owner segments =>
    exact (balanced_cons rfl).mpr (((balanced_cons rfl).mp h).refocus rfl _)
  | join first => exact ((balanced_cons rfl).mp h).refocus rfl _
  | modify modifiers => exact ((balanced_cons rfl).mp h).refocus rfl _
  | name owner => exact ((balanced_cons rfl).mp h).refocus rfl _

end

section

variable {e : Expander σ} {a b : Moment σ}

theorem balanced_next (hnext : e.next a = some b) (h : a.Balanced e.limits.maxDepth) :
    b.Balanced e.limits.maxDepth := by
  match a, hnext with
  | ⟨.phrase owner phrase, frames, walk⟩, hnext =>
    cases hnext
    exact balanced_begin h phrase
  | ⟨.text text, frame :: frames, walk⟩, hnext =>
    cases hnext
    exact balanced_resume h

theorem balanced_steps (hsteps : e.Steps a b) (h : a.Balanced e.limits.maxDepth) :
    b.Balanced e.limits.maxDepth := by
  induction hsteps with
  | refl => exact h
  | tail _ hnext ih => exact balanced_next hnext ih

theorem balanced_start (source : σ) (start : Start) :
    (start.moment e source).Balanced e.limits.maxDepth :=
  ⟨rfl, Nat.zero_le _⟩

end

/-! ## Ways to fail -/

/-- Every error of the expansion is one of these. -/
def FailsOnly {α : Type} (errors : ExpansionError → Prop) (x : Expansion σ α) : Prop :=
  ∀ walk error next, x.along walk = (.error error, next) → errors error

section

variable {α β : Type} {errors others : ExpansionError → Prop} {e : Expander σ}

theorem FailsOnly.mono {x : Expansion σ α} (hx : FailsOnly errors x)
    (h : ∀ error, errors error → others error) : FailsOnly others x :=
  fun walk error next hresult => h error (hx walk error next hresult)

theorem failsOnly_pure (a : α) : FailsOnly errors (pure a : Expansion σ α) := by
  intro walk error next h
  cases h

theorem failsOnly_throw {error : ExpansionError} (h : errors error) :
    FailsOnly errors (throw error : Expansion σ α) := by
  intro walk error next hresult
  cases hresult
  exact h

theorem FailsOnly.bind {x : Expansion σ α} {f : α → Expansion σ β} (hx : FailsOnly errors x)
    (hf : ∀ a, FailsOnly errors (f a)) : FailsOnly errors (x >>= f) := by
  intro walk error last h
  rw [along_bind] at h
  cases hresult : x.along walk with
  | mk result next =>
    rw [hresult] at h
    cases result with
    | error failure =>
      cases h
      exact hx walk _ _ hresult
    | ok a => exact hf a next error last h

/-- What a run reports is an error of the expansion that is run. -/
theorem FailsOnly.run {x : Expansion σ (List Char)} (hx : FailsOnly errors x) {source : σ}
    {error : ExpansionError} (h : (Expander.run x source).result = .error error) :
    errors error := by
  rw [Expander.run_eq] at h
  cases hresult : x.along (Walk.start source) with
  | mk result last =>
    rw [hresult] at h
    have herror : result = .error error := map_eq_error.mp h
    rw [herror] at hresult
    exact hx _ error last hresult

theorem failsOnly_step : FailsOnly (∃ budget, · = .stepsExhausted budget) e.step := by
  intro walk error next h
  rcases e.along_step walk with ⟨budget, _, hstep⟩ | hstep
  · rw [hstep] at h
    cases h
    exact ⟨budget, rfl⟩
  · rw [hstep] at h
    cases h

theorem failsOnly_pick (owner : String) (rules : List Rule) :
    FailsOnly (· = .emptyChoice owner) (e.pick owner rules) := by
  intro walk error next h
  rw [e.along_pick] at h
  cases hpicked : (e.chance.pick (rules.map (·.weight)) walk.source).1 with
  | none =>
    simp only [hpicked] at h
    cases h
    rfl
  | some n =>
    simp only [hpicked] at h
    cases h

theorem failsOnly_drawBy (draw : σ → Except DrawFault α × σ) :
    FailsOnly (fun error => ∃ source fault, (draw source).1 = .error fault ∧ error = .draw fault)
      (Expander.drawBy draw) := by
  intro walk error next h
  rw [Expander.along_drawBy] at h
  cases hdrawn : (draw walk.source).1 with
  | error fault =>
    simp only [hdrawn] at h
    cases h
    exact ⟨walk.source, fault, hdrawn, rfl⟩
  | ok x =>
    simp only [hdrawn] at h
    cases h

theorem failsOnly_draw (range : DrawRange) :
    FailsOnly (∃ fault, · = .draw fault) (e.draw range) := by
  have hdraw : ∀ {α : Type} (draw : σ → Except DrawFault α × σ),
      FailsOnly (∃ fault, · = .draw fault) (Expander.drawBy draw) :=
    fun draw => (failsOnly_drawBy draw).mono fun _ ⟨_, fault, _, herror⟩ => ⟨fault, herror⟩
  cases range with
  | number low high => exact (hdraw _).bind fun _ => failsOnly_pure _
  | letter low high => exact (hdraw _).bind fun _ => failsOnly_pure _

/-- Symbols fail by being unknown, by the limit, and as one level of symbols fails when the symbols
in it do. -/
theorem failsOnly_enter {known : String → Prop}
    (hunknown : ∀ name, known name → e.grammar.symbol? name = none → errors (.unknownSymbol name))
    (hlimit : ∀ name depth, errors (.recursionLimit name depth))
    (hlevel : ∀ enter : String → Expansion σ (List Char),
      (∀ name, known name → FailsOnly errors (enter name)) →
        ∀ name symbol, e.grammar.symbol? name = some symbol →
          FailsOnly errors (e.expandPicked enter name symbol.rules)) (room : Nat) :
    ∀ name, known name → FailsOnly errors (e.enter room name) := by
  induction room with
  | zero =>
    intro name hknown walk error last h
    rcases Expander.enter_eq_error h with ⟨hnone, rfl, _⟩ | ⟨_, _, ⟨_, rfl, _⟩ | ⟨_, hroom, _⟩⟩
    · exact hunknown name hknown hnone
    · exact hlimit ..
    · cases hroom
  | succ room ih =>
    intro name hknown walk error last h
    rcases Expander.enter_eq_error h with
      ⟨hnone, rfl, _⟩ | ⟨symbol, hsymbol, ⟨_, rfl, _⟩ | ⟨_, hroom, hpicked⟩⟩
    · exact hunknown name hknown hnone
    · exact hlimit ..
    · cases hroom
      exact hlevel _ ih name symbol hsymbol _ error last hpicked

end

/-! ## The recursion limit -/

section

variable {e : Expander σ} {name owner : String} {depth : Nat} {frames : List Frame} {walk : Walk σ}

/-- An error comes from the action that is done, or from where it goes on. -/
theorem focus_of_act {α : Type} {errors : ExpansionError → Prop} {x : Expansion σ α}
    {go : α → Walk σ → Moment σ} {error : ExpansionError} (hx : FailsOnly errors x)
    (h : (Moment.act x frames walk go).focus = .error error) :
    errors error ∨ ∃ a next, x.along walk = (.ok a, next) ∧ (go a next).focus = .error error := by
  unfold Moment.act at h
  cases hresult : x.along walk with
  | mk result next =>
    rw [hresult] at h
    cases result with
    | error failure =>
      cases h
      exact Or.inl (hx walk _ _ hresult)
    | ok a => exact Or.inr ⟨a, next, rfl, h⟩

/-- Neither a pick nor the rule that it leads to reports the limit. -/
theorem pick_ne_limit {rules : List Rule} {left : List Frame} :
    (Moment.act (e.pick owner rules) left walk (.ofRule owner rules frames)).focus ≠
      .error (.recursionLimit name depth) := by
  intro h
  rcases focus_of_act (failsOnly_pick owner rules) h with herror | ⟨n, next, _, h⟩
  · cases herror
  · unfold Moment.ofRule at h
    cases hrule : rules[n]? with
    | none =>
      rw [hrule] at h
      cases h
    | some rule =>
      rw [hrule] at h
      cases h

theorem symbol_of_limit {phrase : Phrase}
    (h : (e.begin owner frames walk phrase).focus = .error (.recursionLimit name depth)) :
    phrase = .symbol name ∧ (e.grammar.symbol? name).isSome ∧ e.limits.maxDepth < walk.depth + 1 ∧
      depth = walk.depth + 1 := by
  cases phrase with
  | segment segment =>
    rcases focus_of_act failsOnly_step h with ⟨budget, herror⟩ | ⟨_, next, _, h⟩
    · cases herror
    · cases segment with
      | literal text => cases h
      | reference target modifiers => cases h
      | choice branches => exact absurd h pick_ne_limit
  | target target =>
    cases target with
    | symbol name => cases h
    | dereference inner => cases h
    | quoted text => cases h
    | pattern segments => cases h
    | range range =>
      rcases focus_of_act (failsOnly_draw range) h with ⟨fault, herror⟩ | ⟨text, next, _, h⟩
      · cases herror
      · cases h
  | row segments => cases segments <;> cases h
  | body segments => cases h
  | symbol entered =>
    simp only [Expander.begin, Expander.beginSymbol] at h
    cases hsymbol : e.grammar.symbol? entered with
    | none =>
      rw [hsymbol] at h
      cases h
    | some symbol =>
      rw [hsymbol] at h
      by_cases hlimit : e.limits.maxDepth < walk.depth + 1
      · simp only [if_pos hlimit] at h
        cases h
        exact ⟨rfl, by rw [hsymbol]; rfl, hlimit, rfl⟩
      · simp only [if_neg hlimit] at h
        exact absurd h pick_ne_limit

/-- A declared symbol that comes up while as many are open as may be is reported next. -/
theorem next_of_full (owner : String) (frames : List Frame) {symbol : Symbol}
    (hsymbol : e.grammar.symbol? name = some symbol) (hfull : walk.depth = e.limits.maxDepth) :
    e.next ⟨.phrase owner (.symbol name), frames, walk⟩ =
      some ⟨.error (.recursionLimit name (e.limits.maxDepth + 1)), frames, walk⟩ := by
  simp only [Expander.next, Expander.begin, Expander.beginSymbol, hsymbol, hfull,
    if_pos (Nat.lt_succ_self _)]

end

section

variable {e : Expander σ} {source : σ} {start : Start} {name : String} {depth : Nat}

/-- A moment that reports the limit comes right after one at which a symbol comes up. -/
theorem limit_of_next {a b : Moment σ} (hnext : e.next a = some b)
    (hb : b.focus = .error (.recursionLimit name depth)) :
    (∃ owner, a.focus = .phrase owner (.symbol name)) ∧ (e.grammar.symbol? name).isSome ∧
      e.limits.maxDepth < a.walk.depth + 1 ∧ depth = a.walk.depth + 1 := by
  match a, hnext with
  | ⟨.phrase owner phrase, frames, walk⟩, hnext =>
    cases hnext
    obtain ⟨rfl, hrest⟩ := symbol_of_limit hb
    exact ⟨⟨owner, rfl⟩, hrest⟩
  | ⟨.text text, frame :: frames, walk⟩, hnext =>
    cases hnext
    cases frame <;> cases hb

/-- The limit is reported exactly when a declared symbol comes up while as many are open as may
be. -/
theorem limit_iff : (start.outcome e source).result = .error (.recursionLimit name depth) ↔
    depth = e.limits.maxDepth + 1 ∧ ∃ moment owner, e.Steps (start.moment e source) moment ∧
      moment.focus = .phrase owner (.symbol name) ∧ (e.grammar.symbol? name).isSome ∧
      moment.openSymbols = e.limits.maxDepth := by
  obtain ⟨last, hsteps, hend, houtcome⟩ := exists_last e source start
  rw [Moment.result_eq_error houtcome]
  constructor
  · intro h
    rcases Relation.ReflTransGen.cases_tail hsteps with hlast | ⟨before, hbefore, hnext⟩
    · rw [hlast] at h
      obtain ⟨failure, herror⟩ := pattern_of_focus h
      cases herror
    · obtain ⟨⟨owner, hfocus⟩, hdeclared, hlimit, hdepth⟩ := limit_of_next hnext h
      have hbalanced := balanced_steps hbefore (balanced_start source start)
      have hcounted := hbalanced.counted
      have hwithin := hbalanced.within
      exact ⟨by omega, before, owner, hbefore, hfocus, hdeclared, by omega⟩
  · rintro ⟨rfl, moment, owner, hmoment, hfocus, hdeclared, hopen⟩
    obtain ⟨symbol, hsymbol⟩ := Option.isSome_iff_exists.mp hdeclared
    have hcounted := (balanced_steps hmoment (balanced_start source start)).counted
    obtain ⟨focus, frames, walk⟩ := moment
    cases hfocus
    have hnext := next_of_full owner frames hsymbol (hcounted.trans hopen)
    rw [hsteps.last_unique e hend (hmoment.tail hnext) rfl]

end

/-! ## Draws that return -/

/-- Whatever the state of the chance, a draw from the range gives something. -/
def Chance.Returns (chance : Chance σ) : DrawRange → Prop
  | .number low high => ∀ source, ∃ x, (chance.number low high source).1 = .ok x
  | .letter low high => ∀ source, ∃ x, (chance.letter low high source).1 = .ok x

/-- The error is not the fault of a draw. -/
def NoFault (error : ExpansionError) : Prop := ∀ fault, error ≠ .draw fault

section

variable {e : Expander σ}

theorem failsOnly_drawBy_of_returns {α : Type} {draw : σ → Except DrawFault α × σ}
    (h : ∀ source, ∃ x, (draw source).1 = .ok x) :
    FailsOnly NoFault (Expander.drawBy draw) := by
  refine (failsOnly_drawBy draw).mono ?_
  rintro _ ⟨source, fault, hfault, -⟩
  obtain ⟨x, hx⟩ := h source
  rw [hx] at hfault
  cases hfault

theorem noFault_draw {range : DrawRange} (h : e.chance.Returns range) :
    FailsOnly NoFault (e.draw range) := by
  cases range with
  | number low high => exact (failsOnly_drawBy_of_returns h).bind fun _ => failsOnly_pure _
  | letter low high => exact (failsOnly_drawBy_of_returns h).bind fun _ => failsOnly_pure _

theorem noFault_compositional : e.Compositional (FailsOnly NoFault) where
  pure := failsOnly_pure
  bind := FailsOnly.bind
  step := failsOnly_step.mono (by rintro _ ⟨budget, rfl⟩ fault ⟨⟩)
  pick owner rules := (failsOnly_pick owner rules).mono (by rintro _ rfl fault ⟨⟩)
  emptyChoice owner := failsOnly_throw (by rintro fault ⟨⟩)

theorem noFault_enter (hreturns : ∀ range, .draw range ∈ e.grammar.requests →
    e.chance.Returns range) (room : Nat) (name : String) :
    FailsOnly NoFault (e.enter room name) := by
  have hroom : ∀ name, True → FailsOnly NoFault (e.enter room name) := by
    apply failsOnly_enter
    · rintro name _ _ fault ⟨⟩
    · rintro name depth fault ⟨⟩
    · intro enter henter name symbol hsymbol
      refine noFault_compositional.expandPicked fun rule hmem => ?_
      refine (noFault_compositional.expand fun name => henter name trivial).all
        (.body rule.segments) fun range hrange => ?_
      exact noFault_draw (hreturns range (requests_subset_of_rule hsymbol hmem hrange))
  exact hroom name trivial

/-- When all draws return, no expansion fails by a draw. -/
theorem noFault_outcome {start : Start} (hreturns : ∀ range,
    .draw range ∈ (start.focus e.grammar).requests ++ e.grammar.requests →
      e.chance.Returns range) (source : σ) (fault : DrawFault) :
    (start.outcome e source).result ≠ .error (.draw fault) := by
  have hfocus : FailsOnly NoFault ((start.focus e.grammar).expand e) := by
    cases hstart : start.focus e.grammar with
    | phrase owner phrase =>
      rw [hstart] at hreturns
      have henter := noFault_enter fun range hrange =>
        hreturns range (List.mem_append_right _ hrange)
      exact (noFault_compositional.expand (henter _)).all phrase fun range hrange =>
        noFault_draw (hreturns range (List.mem_append_left _ hrange))
    | text text => exact failsOnly_pure _
    | error error =>
      obtain ⟨failure, rfl⟩ := pattern_of_focus hstart
      exact failsOnly_throw (by rintro fault ⟨⟩)
  intro h
  rw [outcome_eq_run] at h
  exact hfocus.run h fault rfl

end

/-! ## The law -/

/-- An expansion whose draws return ends with a text or an error. At every moment the symbols
that are open are counted, and no more are open than may be; what succeeds leaves as many open as
before; and the recursion limit is reported exactly when a declared symbol comes up while as many
are open as may be, with its name and one more than that. -/
theorem expansion_ends_within_its_depth (e : Expander σ) (start : Start) (source : σ)
    (hreturns : ∀ range, .draw range ∈ (start.focus e.grammar).requests ++ e.grammar.requests →
      e.chance.Returns range) :
    (∃ last, e.Steps (start.moment e source) last ∧ e.next last = none ∧
      last.outcome? = some (start.outcome e source)) ∧
    (∀ fault, (start.outcome e source).result ≠ .error (.draw fault)) ∧
    (∀ moment, e.Steps (start.moment e source) moment →
      moment.walk.depth = moment.openSymbols ∧ moment.openSymbols ≤ e.limits.maxDepth) ∧
    (∀ room owner (phrase : Phrase) walk text last,
      (phrase.expand e (e.enter room) owner).along walk = (.ok text, last) →
        last.depth = walk.depth) ∧
    ∀ name depth, (start.outcome e source).result = .error (.recursionLimit name depth) ↔
      depth = e.limits.maxDepth + 1 ∧ ∃ moment owner, e.Steps (start.moment e source) moment ∧
        moment.focus = .phrase owner (.symbol name) ∧ (e.grammar.symbol? name).isSome ∧
        moment.openSymbols = e.limits.maxDepth := by
  refine ⟨exists_last e source start, noFault_outcome hreturns source, ?_, ?_, ?_⟩
  · intro moment hmoment
    have hbalanced := balanced_steps hmoment (balanced_start source start)
    exact ⟨hbalanced.counted, hbalanced.within⟩
  · exact fun room owner phrase => keepsDepth_phrase e room owner phrase
  · exact fun name depth => limit_iff

/-- When the size of a range divides the number of words, no word is rejected. -/
theorem returns_letter [WordSource σ] {low high : Char} (hle : low ≤ high)
    (hdvd : (charRank high - charRank low + 1) ∣ Nat.pow 2 32) :
    (Chance.ofWords : Chance σ).Returns (.letter low high) := by
  intro source
  change ∃ x, (drawLetter low high source).1 = .ok x
  obtain ⟨tries, htries⟩ : ∃ n, rejectionLimit = n + 1 :=
    Nat.exists_eq_succ_of_ne_zero (Nat.pos_iff_ne_zero.mp (Nat.pow_pos (by decide)))
  unfold drawLetter
  rw [if_neg (Char.not_lt.mpr hle), htries]
  generalize charRank high - charRank low + 1 = size at hdvd
  have hrest : (Nat.pow 2 32 - size) % size = 0 :=
    Nat.mod_eq_zero_of_dvd (Nat.dvd_sub hdvd (Nat.dvd_refl size))
  have hbelow : ∀ n, n % Nat.pow 2 32 ≤ Nat.pow 2 32 - 1 := fun n =>
    Nat.le_sub_one_of_lt (Nat.mod_lt n (Nat.pow_pos (by decide)))
  simp only [hrest, Nat.sub_zero, drawBelow, if_pos (hbelow _)]
  exact ⟨_, rfl⟩

/-- A grammar whose symbol comes up again by a computed name. -/
def refrain : Grammar :=
  ⟨[⟨"refrain", [⟨[.reference (.range (.letter 'a' 'd')) [],
    .reference (.dereference (.literal " refrain ")) []], .one⟩], 1⟩]⟩

def refrainExpander : Expander WordList := ⟨refrain, .ofWords, .english, { maxDepth := 3 }⟩

theorem refrain_returns (range : DrawRange) (h : .draw range ∈ refrain.requests) :
    refrainExpander.chance.Returns range := by
  have hrange : range = .letter 'a' 'd' := by
    simpa [refrain, Grammar.requests, Symbol.requests, Rule.allRequests, Rule.requests,
      Segment.allRequests, Segment.requests, Target.requests] using h
  rw [hrange]
  exact returns_letter (by decide) (by decide)

/-- The law at a refrain: it ends at its limit, after three symbols were open. -/
theorem refrain_ends_within_its_depth :
    (Expander.expandSymbol refrainExpander "refrain" ⟨[], 0⟩).result =
      .error (.recursionLimit "refrain" 4) ∧
    ∃ moment owner, refrainExpander.Steps ((Start.symbol "refrain").moment refrainExpander ⟨[], 0⟩)
      moment ∧ moment.focus = .phrase owner (.symbol "refrain") ∧ moment.openSymbols = 3 := by
  have hresult : (Expander.expandSymbol refrainExpander "refrain" ⟨[], 0⟩).result =
      .error (.recursionLimit "refrain" 4) := by decide +kernel
  have hlaw := expansion_ends_within_its_depth refrainExpander (.symbol "refrain") ⟨[], 0⟩
    fun range hrange => refrain_returns range hrange
  obtain ⟨_, moment, owner, hmoment, hfocus, _, hopen⟩ := (hlaw.2.2.2.2 _ _).mp hresult
  exact ⟨hresult, moment, owner, hmoment, hfocus, hopen⟩

end TextGrammar
