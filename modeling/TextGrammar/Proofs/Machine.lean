-- Expansion step by step: what is at hand, what waits for its text, and the walk so far. A run of
-- steps shows every moment of an expansion. The limit on open symbols is checked against the
-- walk's count of them, as they are opened, and the run comes to where the expansion ends.
import Mathlib.Logic.Relation
import TextGrammar.Proofs.Depth

namespace TextGrammar

variable {σ α : Type}

/-! ## Moments -/

/-- What is at hand. -/
inductive Focus where
  /-- A phrase of a rule of the symbol `owner`, to be expanded. -/
  | phrase (owner : String) (phrase : Phrase)
  /-- What a phrase expanded to. -/
  | text (text : List Char)
  | error (error : ExpansionError)

/-- What waits for a text. -/
inductive Frame where
  /-- An open symbol, which the text closes. -/
  | symbol (name : String)
  /-- A body, whose inline markers are resolved. -/
  | body
  /-- The segments that follow in a row. -/
  | row (owner : String) (segments : List Segment)
  /-- The text in front. -/
  | join (first : List Char)
  | modify (modifiers : List Modifier)
  /-- A dereference, which the text gives a name. -/
  | name (owner : String)

/-- The frame is an open symbol. -/
def Frame.isSymbol : Frame → Bool
  | .symbol _ => true
  | _ => false

/-- A moment of an expansion. -/
structure Moment (σ : Type) where
  focus : Focus
  /-- What waits, the next in turn first. -/
  frames : List Frame
  walk : Walk σ

namespace Moment

variable {σ : Type}

/-- How many symbols are open. -/
def openSymbols (moment : Moment σ) : Nat := moment.frames.countP Frame.isSymbol

/-- The end of the expansion, if this is it. -/
def outcome? : Moment σ → Option (Expander.Outcome σ)
  | ⟨.text text, [], walk⟩ => some ⟨.ok (String.ofList text), walk⟩
  | ⟨.error error, _, walk⟩ => some ⟨.error error, walk⟩
  | _ => none

/-- An expansion fails with the error that is at hand at its end. -/
theorem result_eq_error {moment : Moment σ} {outcome : Expander.Outcome σ}
    (h : moment.outcome? = some outcome) {error : ExpansionError} :
    outcome.result = .error error ↔ moment.focus = .error error := by
  match moment, h with
  | ⟨.text text, [], walk⟩, h =>
    cases h
    constructor <;> intro h <;> cases h
  | ⟨.error failure, frames, walk⟩, h =>
    cases h
    constructor
    · rintro ⟨⟩
      rfl
    · rintro ⟨⟩
      rfl

/-- Does an action and goes on with its answer. -/
def act {α : Type} (x : Expansion σ α) (frames : List Frame) (walk : Walk σ)
    (go : α → Walk σ → Moment σ) : Moment σ :=
  match x.along walk with
  | (.ok a, next) => go a next
  | (.error error, next) => ⟨.error error, frames, next⟩

/-- Goes on with the rule of a number. -/
def ofRule (owner : String) (rules : List Rule) (frames : List Frame) (n : Nat) (walk : Walk σ) :
    Moment σ :=
  match rules[n]? with
  | some rule => ⟨.phrase owner (.body rule.segments), frames, walk⟩
  | none => ⟨.error (.emptyChoice owner), frames, walk⟩

end Moment

/-! ## Steps -/

namespace Expander

variable {σ : Type} (e : Expander σ)

/-- Starts on a segment whose step is taken. -/
def beginSegment (owner : String) (frames : List Frame) (walk : Walk σ) : Segment → Moment σ
  | .literal text => ⟨.text text.toList, frames, walk⟩
  | .reference target modifiers =>
    ⟨.phrase owner (.target target), .modify modifiers :: frames, walk⟩
  | .choice branches =>
    .act (e.pick owner branches) frames walk (.ofRule owner branches frames)

/-- Starts on a target. -/
def beginTarget (owner : String) (frames : List Frame) (walk : Walk σ) : Target → Moment σ
  | .symbol name => ⟨.phrase owner (.symbol name), frames, walk⟩
  | .dereference inner => ⟨.phrase owner (.segment inner), .name owner :: frames, walk⟩
  | .quoted text => ⟨.text text.toList, frames, walk⟩
  | .pattern segments => ⟨.phrase owner (.body segments), frames, walk⟩
  | .range range => .act (e.draw range) frames walk fun text next => ⟨.text text, frames, next⟩

/-- Starts on a symbol: opens it, if one more may be open, and picks a rule. -/
def beginSymbol (name : String) (frames : List Frame) (walk : Walk σ) : Moment σ :=
  match e.grammar.symbol? name with
  | none => ⟨.error (.unknownSymbol name), frames, walk⟩
  | some symbol =>
    if e.limits.maxDepth < walk.depth + 1 then
      ⟨.error (.recursionLimit name (walk.depth + 1)), frames, walk⟩
    else
      .act (e.pick name symbol.rules) (.symbol name :: frames) (openedWalk walk)
        (.ofRule name symbol.rules (.symbol name :: frames))

/-- Starts on a phrase. -/
def begin (owner : String) (frames : List Frame) (walk : Walk σ) : Phrase → Moment σ
  | .segment segment =>
    .act e.step frames walk fun _ next => e.beginSegment owner frames next segment
  | .target target => e.beginTarget owner frames walk target
  | .row [] => ⟨.text [], frames, walk⟩
  | .row (segment :: segments) =>
    ⟨.phrase owner (.segment segment), .row owner segments :: frames, walk⟩
  | .body segments => ⟨.phrase owner (.row segments), .body :: frames, walk⟩
  | .symbol name => e.beginSymbol name frames walk

/-- Gives a text to the frame that waits for it. -/
def resume (text : List Char) (frames : List Frame) (walk : Walk σ) : Frame → Moment σ
  | .symbol _ => ⟨.text text, frames, closedWalk walk⟩
  | .body => ⟨.text (Inline.resolve e.inflector text), frames, walk⟩
  | .row owner segments => ⟨.phrase owner (.row segments), .join text :: frames, walk⟩
  | .join first => ⟨.text (first ++ text), frames, walk⟩
  | .modify modifiers => ⟨.text (modifiers.foldl e.inflector.modify text), frames, walk⟩
  | .name owner => ⟨.phrase owner (.symbol (String.ofList (trim text))), frames, walk⟩

/-- The next moment; none after the end. -/
def next : Moment σ → Option (Moment σ)
  | ⟨.phrase owner phrase, frames, walk⟩ => some (e.begin owner frames walk phrase)
  | ⟨.text text, frame :: frames, walk⟩ => some (e.resume text frames walk frame)
  | ⟨.text _, [], _⟩ => none
  | ⟨.error _, _, _⟩ => none

/-- Some steps lead from one moment to another. -/
def Steps : Moment σ → Moment σ → Prop := Relation.ReflTransGen fun a b => e.next a = some b

/-- A run that has ended goes nowhere else: every moment is on the way to its end. -/
theorem Steps.to_last {start moment last : Moment σ} (hmoment : e.Steps start moment)
    (hlast : e.Steps start last) (hend : e.next last = none) : e.Steps moment last := by
  induction hmoment using Relation.ReflTransGen.head_induction_on with
  | refl => exact hlast
  | head hstep _ ih =>
    apply ih
    rcases Relation.ReflTransGen.cases_head hlast with rfl | ⟨b, hb, hrest⟩
    · rw [hend] at hstep
      cases hstep
    · rw [hstep] at hb
      cases hb
      exact hrest

/-- A run ends in one moment only. -/
theorem Steps.last_unique {start last other : Moment σ} (hlast : e.Steps start last)
    (hend : e.next last = none) (hother : e.Steps start other) (hotherEnd : e.next other = none) :
    last = other := by
  rcases Relation.ReflTransGen.cases_head (hlast.to_last e hother hotherEnd) with h | ⟨b, hb, _⟩
  · exact h
  · rw [hend] at hb
    cases hb

end Expander

/-! ## Runs that arrive -/

section

variable (e : Expander σ)

/-- From a moment, steps lead to what an expansion gives: to its text, which goes to the frames
that wait, or to its error. -/
def Arrives (start : Moment σ) (frames : List Frame) :
    Except ExpansionError (List Char) × Walk σ → Prop
  | (.ok text, last) => e.Steps start ⟨.text text, frames, last⟩
  | (.error error, last) => ∃ left, e.Steps start ⟨.error error, left, last⟩

variable {e} {start moment : Moment σ} {frames left : List Frame} {walk : Walk σ}

theorem Arrives.step {result : Except ExpansionError (List Char) × Walk σ}
    (hnext : e.next start = some moment) (h : Arrives e moment frames result) :
    Arrives e start frames result := by
  match result with
  | (.ok text, last) => exact .head hnext h
  | (.error error, last) =>
    obtain ⟨left, h⟩ := h
    exact ⟨left, .head hnext h⟩

theorem Arrives.trans {result : Except ExpansionError (List Char) × Walk σ}
    (hsteps : e.Steps start moment) (h : Arrives e moment frames result) :
    Arrives e start frames result := by
  induction hsteps using Relation.ReflTransGen.head_induction_on with
  | refl => exact h
  | head hnext _ ih => exact ih.step hnext

/-- A part of an expansion arrives at a frame, and the rest goes on from there. -/
theorem Arrives.bind {frame : Frame} {x : Expansion σ (List Char)}
    {f : List Char → Expansion σ (List Char)}
    (hx : Arrives e start (frame :: frames) (x.along walk))
    (hf : ∀ text next, x.along walk = (.ok text, next) →
      Arrives e (e.resume text frames next frame) frames ((f text).along next)) :
    Arrives e start frames ((x >>= f).along walk) := by
  rw [along_bind]
  cases hresult : x.along walk with
  | mk result next =>
    rw [hresult] at hx
    cases result with
    | error error => exact hx
    | ok text => exact .trans hx (.step rfl (hf text next hresult))

/-- An action is done at once, and the rest goes on with its answer. -/
theorem Arrives.act {x : Expansion σ α} {go : α → Walk σ → Moment σ}
    {f : α → Expansion σ (List Char)}
    (hgo : ∀ a next, x.along walk = (.ok a, next) →
      Arrives e (go a next) frames ((f a).along next)) :
    Arrives e (.act x left walk go) frames ((x >>= f).along walk) := by
  rw [along_bind]
  unfold Moment.act
  cases hresult : x.along walk with
  | mk result next =>
    cases result with
    | error error => exact ⟨left, .refl⟩
    | ok a => exact hgo a next hresult

end

/-! ## The expansion of a phrase -/

/-- From every moment with room for so many more symbols, steps lead from the phrase to what it
expands to. -/
def Simulates (e : Expander σ) (room : Nat) (owner : String) (phrase : Phrase) : Prop :=
  ∀ frames walk, walk.depth + room = e.limits.maxDepth →
    Arrives e ⟨.phrase owner phrase, frames, walk⟩ frames
      ((phrase.expand e (e.enter room) owner).along walk)

section

variable {e : Expander σ} {room : Nat} {owner : String}

theorem arrives_picked {frames left : List Frame} {walk : Walk σ} {rules : List Rule}
    (hrules : ∀ rule ∈ rules, Simulates e room owner (.body rule.segments))
    (hroom : walk.depth + room = e.limits.maxDepth) :
    Arrives e (.act (e.pick owner rules) left walk (.ofRule owner rules frames)) frames
      ((e.expandPicked (e.enter room) owner rules).along walk) := by
  refine .act fun n next hn => ?_
  have hdepth : next.depth = walk.depth := (keepsCount_pick e owner rules).keepsDepth _ _ _ hn
  rw [expandNth_eq]
  unfold Moment.ofRule
  cases hrule : rules[n]? with
  | none => exact ⟨_, .refl⟩
  | some rule => exact hrules rule (List.mem_of_getElem? hrule) frames next (by omega)

/-- One level of symbols: steps lead to what phrases expand to if they do for symbols. -/
theorem simulates_expand (hsymbol : ∀ name, Simulates e room owner (.symbol name)) :
    Phrase.Inductive (Simulates e room owner) where
  literal text := by
    intro frames walk hroom
    rw [expand_literal]
    exact .step rfl (.act fun _ next _ => .refl)
  reference target modifiers ih := by
    intro frames walk hroom
    rw [expand_reference]
    refine .step rfl (.act fun _ next hstep => ?_)
    have hdepth : next.depth = walk.depth := (keepsCount_step e).keepsDepth _ _ _ hstep
    refine .bind (ih (.modify modifiers :: frames) next (by omega)) ?_
    intro text last _
    exact .refl
  choice branches ih := by
    intro frames walk hroom
    rw [expand_choice]
    refine .step rfl (.act fun _ next hstep => ?_)
    have hdepth : next.depth = walk.depth := (keepsCount_step e).keepsDepth _ _ _ hstep
    exact arrives_picked ih (by omega)
  symbolTarget name ih := by
    intro frames walk hroom
    rw [expand_symbolTarget]
    exact .step rfl (hsymbol name frames walk hroom)
  dereference inner ih := by
    intro frames walk hroom
    rw [expand_dereference]
    refine .step rfl (.bind (ih _ walk hroom) ?_)
    intro name next hname
    have hdepth : next.depth = walk.depth := keepsDepth_phrase e room owner _ _ _ _ hname
    exact hsymbol _ frames next (by omega)
  quoted text := by
    intro frames walk hroom
    rw [expand_quoted]
    exact .step rfl .refl
  pattern segments ih := by
    intro frames walk hroom
    rw [expand_pattern]
    exact .step rfl (ih frames walk hroom)
  range range := by
    intro frames walk hroom
    rw [expand_range, ← bind_pure (e.draw range)]
    exact .step rfl (.act fun _ next _ => .refl)
  nil := by
    intro frames walk hroom
    rw [expand_nil]
    exact .step rfl .refl
  cons segment segments ihSegment ihRow := by
    intro frames walk hroom
    rw [expand_cons]
    refine .step rfl (.bind (ihSegment _ walk hroom) ?_)
    intro first next hfirst
    have hdepth : next.depth = walk.depth := keepsDepth_phrase e room owner _ _ _ _ hfirst
    refine .bind (ihRow _ next (by omega)) ?_
    intro rest last _
    exact .refl
  body segments ih := by
    intro frames walk hroom
    rw [expand_body]
    refine .step rfl (.bind (ih _ walk hroom) ?_)
    intro text last _
    exact .refl
  symbol name := hsymbol name

/-- Level by level, steps lead to what symbols expand to. -/
theorem simulates_symbol (room : Nat) :
    ∀ owner name, Simulates e room owner (.symbol name) := by
  induction room with
  | zero =>
    intro owner name frames walk hroom
    refine .step rfl ?_
    change Arrives e (e.beginSymbol name frames walk) frames ((e.enter 0 name).along walk)
    unfold Expander.beginSymbol
    cases hsymbol : e.grammar.symbol? name with
    | none =>
      rw [e.along_enter_unknown walk hsymbol]
      exact ⟨_, .refl⟩
    | some symbol =>
      have hlimit : e.limits.maxDepth < walk.depth + 1 := by omega
      rw [e.along_enter_zero walk hsymbol]
      simp only [if_pos hlimit]
      exact ⟨_, .refl⟩
  | succ room ih =>
    intro owner name frames walk hroom
    refine .step rfl ?_
    change Arrives e (e.beginSymbol name frames walk) frames ((e.enter (room + 1) name).along walk)
    unfold Expander.beginSymbol
    cases hsymbol : e.grammar.symbol? name with
    | none =>
      rw [e.along_enter_unknown walk hsymbol]
      exact ⟨_, .refl⟩
    | some symbol =>
      have hlimit : ¬ e.limits.maxDepth < walk.depth + 1 := by omega
      have hopened : (Expander.openedWalk walk).depth + room = e.limits.maxDepth := by
        change walk.depth + 1 + room = _
        omega
      rw [e.along_enter_succ walk hsymbol]
      simp only [if_neg hlimit]
      refine .bind (arrives_picked ?_ hopened) ?_
      · exact fun rule _ => (simulates_expand (ih name)).all (.body rule.segments)
      · intro text last _
        exact .refl

/-- Steps lead from every phrase to what it expands to. -/
theorem simulates_phrase (phrase : Phrase) : Simulates e room owner phrase :=
  (simulates_expand (simulates_symbol room owner)).all phrase

end

end TextGrammar
