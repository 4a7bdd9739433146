-- Phrases: what an expansion may be about to expand, as one type. A single induction over phrases
-- stands for the mutual recursion over segments, targets and rules.
import TextGrammar.Expansion.Basic

namespace TextGrammar

/-! ## Expansions along a walk -/

section

variable {σ α β : Type}

/-- What an expansion gives, and the walk as it leaves it. -/
def Expansion.along (x : Expansion σ α) (walk : Walk σ) : Except ExpansionError α × Walk σ :=
  x.run.run walk

variable {x : Expansion σ α} {f : α → Expansion σ β} {walk next last : Walk σ}

theorem along_get (walk : Walk σ) :
    (get : Expansion σ (Walk σ)).along walk = (.ok walk, walk) := rfl

theorem along_bind (x : Expansion σ α) (f : α → Expansion σ β) (walk : Walk σ) :
    (x >>= f).along walk =
      match x.along walk with
      | (.ok a, next) => (f a).along next
      | (.error error, next) => (.error error, next) := by
  change (ExceptT.bindCont f (x.along walk).1).run (x.along walk).2 = _
  rcases x.along walk with ⟨_ | a, next⟩ <;> rfl

theorem along_bind_ok {a : α} (h : x.along walk = (.ok a, next)) :
    (x >>= f).along walk = (f a).along next := by
  rw [along_bind, h]

theorem along_bind_error {error : ExpansionError} (h : x.along walk = (.error error, next)) :
    (x >>= f).along walk = (.error error, next) := by
  rw [along_bind, h]

theorem along_bind_eq_ok {b : β} : (x >>= f).along walk = (.ok b, last) ↔
    ∃ a next, x.along walk = (.ok a, next) ∧ (f a).along next = (.ok b, last) := by
  rw [along_bind]
  rcases x.along walk with ⟨_ | a, next⟩
  · simp
  · constructor
    · exact fun h => ⟨a, next, rfl, h⟩
    · rintro ⟨_, _, h, hf⟩
      cases h
      exact hf

end

theorem Expander.run_eq {σ : Type} (x : Expansion σ (List Char)) (source : σ) :
    Expander.run x source = ⟨(x.along (Walk.start source)).1.map String.ofList,
      (x.along (Walk.start source)).2⟩ := rfl

/-! ## Single actions -/

namespace Expander

variable {σ : Type} (e : Expander σ) (walk : Walk σ)

/-- A step is counted, or the budget is spent and nothing changes. -/
theorem along_step : (∃ budget, e.limits.stepBudget = some budget ∧
      e.step.along walk = (.error (.stepsExhausted budget), walk)) ∨
    e.step.along walk = (.ok (), { walk with steps := walk.steps + 1 }) := by
  unfold step
  rw [along_bind_ok (along_get walk)]
  cases hbudget : e.limits.stepBudget with
  | none => exact Or.inr rfl
  | some budget =>
    by_cases hspent : budget ≤ walk.steps
    · refine Or.inl ⟨budget, rfl, ?_⟩
      simp only [if_pos hspent]
      rfl
    · refine Or.inr ?_
      simp only [if_neg hspent]
      rfl

theorem along_pick (owner : String) (rules : List Rule) :
    (e.pick owner rules).along walk =
      let drawn := e.chance.pick (rules.map (·.weight)) walk.source
      (drawn.1.elim (.error (.emptyChoice owner)) .ok, { walk with source := drawn.2 }) := by
  unfold pick
  rw [along_bind_ok (along_get walk)]
  generalize e.chance.pick (rules.map (·.weight)) walk.source = drawn
  rcases drawn with ⟨_ | n, source⟩ <;> rfl

theorem along_drawBy {α : Type} (draw : σ → Except DrawFault α × σ) :
    (drawBy draw).along walk =
      let drawn := draw walk.source
      (drawn.1.mapError .draw, { walk with source := drawn.2 }) := by
  unfold drawBy
  rw [along_bind_ok (along_get walk)]
  generalize draw walk.source = drawn
  rcases drawn with ⟨_ | x, source⟩ <;> rfl

/-! ## Symbols -/

theorem along_declared {name : String} {symbol : Symbol}
    (h : e.grammar.symbol? name = some symbol) :
    (e.declared name).along walk = (.ok symbol, walk) := by
  unfold declared
  rw [h]
  rfl

/-- A name that nothing is declared under. -/
theorem along_enter_unknown {room : Nat} {name : String} (h : e.grammar.symbol? name = none) :
    (e.enter room name).along walk = (.error (.unknownSymbol name), walk) := by
  have hdeclared : (e.declared name).along walk = (.error (.unknownSymbol name), walk) := by
    unfold declared
    rw [h]
    rfl
  cases room <;> exact along_bind_error hdeclared

/-- A symbol that may not be opened any more. -/
theorem along_enter_zero {name : String} {symbol : Symbol}
    (h : e.grammar.symbol? name = some symbol) :
    (e.enter 0 name).along walk = (.error (.recursionLimit name (walk.depth + 1)), walk) := by
  unfold enter
  rw [along_bind_ok (e.along_declared walk h), along_bind_ok (along_get walk)]
  rfl

/-- The walk when one more symbol is open. -/
def openedWalk : Walk σ :=
  { walk with depth := walk.depth + 1, deepest := max walk.deepest (walk.depth + 1) }

/-- The walk when the symbol opened last is closed. -/
def closedWalk : Walk σ := { walk with depth := walk.depth - 1 }

end Expander

/-! ## Phrases -/

/-- What an expansion may be about to expand. -/
inductive Phrase where
  | segment (segment : Segment)
  | target (target : Target)
  /-- Segments in a row. -/
  | row (segments : List Segment)
  /-- Segments in a row, with the inline markers of the whole resolved. -/
  | body (segments : List Segment)
  /-- The symbol of a name. -/
  | symbol (name : String)

namespace Phrase

section

variable {P : Phrase → Prop}

/-- An induction over phrases has a case for each way that a phrase is made of others. -/
structure Inductive (P : Phrase → Prop) : Prop where
  literal : ∀ text, P (.segment (.literal text))
  reference : ∀ target modifiers, P (.target target) → P (.segment (.reference target modifiers))
  choice : ∀ branches, (∀ rule ∈ branches, P (.body rule.segments)) →
    P (.segment (.choice branches))
  symbolTarget : ∀ name, P (.symbol name) → P (.target (.symbol name))
  dereference : ∀ inner, P (.segment inner) → P (.target (.dereference inner))
  quoted : ∀ text, P (.target (.quoted text))
  pattern : ∀ segments, P (.body segments) → P (.target (.pattern segments))
  range : ∀ range, P (.target (.range range))
  nil : P (.row [])
  cons : ∀ segment segments, P (.segment segment) → P (.row segments) →
    P (.row (segment :: segments))
  body : ∀ segments, P (.row segments) → P (.body segments)
  symbol : ∀ name, P (.symbol name)

namespace Inductive

mutual

theorem segment (h : Inductive P) : ∀ segment, P (.segment segment)
  | .literal text => h.literal text
  | .reference target modifiers => h.reference target modifiers (h.target target)
  | .choice branches => h.choice branches (h.rules branches)

theorem target (h : Inductive P) : ∀ target, P (.target target)
  | .symbol name => h.symbolTarget name (h.symbol name)
  | .dereference inner => h.dereference inner (h.segment inner)
  | .quoted text => h.quoted text
  | .pattern segments => h.pattern segments (h.body segments (h.row segments))
  | .range range => h.range range

theorem rule (h : Inductive P) : ∀ rule : Rule, P (.body rule.segments)
  | ⟨segments, _⟩ => h.body segments (h.row segments)

theorem row (h : Inductive P) : ∀ segments, P (.row segments)
  | [] => h.nil
  | segment :: segments => h.cons segment segments (h.segment segment) (h.row segments)

theorem rules (h : Inductive P) : ∀ rules : List Rule, ∀ rule ∈ rules, P (.body rule.segments)
  | [] => by simp
  | rule :: rules => List.forall_mem_cons.mpr ⟨h.rule rule, h.rules rules⟩

end

/-- Every phrase has a property that an induction carries. -/
theorem all (h : Inductive P) : ∀ phrase, P phrase
  | .segment segment => h.segment segment
  | .target target => h.target target
  | .row segments => h.row segments
  | .body segments => h.body segments (h.row segments)
  | .symbol name => h.symbol name

end Inductive

end

end Phrase

/-! ## Expanding a phrase -/

section

variable {σ : Type} (e : Expander σ) (enter : String → Expansion σ (List Char)) (owner : String)

/-- Expands a phrase of a rule of the symbol `owner`. -/
def Phrase.expand : Phrase → Expansion σ (List Char)
  | .segment s => s.expand e enter owner
  | .target t => t.expand e enter owner
  | .row ss => Segment.expandAll e enter owner ss
  | .body ss => do
    let text ← Segment.expandAll e enter owner ss
    pure (Inline.resolve e.inflector text)
  | .symbol name => enter name

theorem expand_literal (text : String) :
    (Phrase.segment (.literal text)).expand e enter owner =
      e.step >>= fun _ => pure text.toList := by
  rw [Phrase.expand, Segment.expand]

theorem expand_reference (target : Target) (modifiers : List Modifier) :
    (Phrase.segment (.reference target modifiers)).expand e enter owner =
      e.step >>= fun _ => (Phrase.target target).expand e enter owner >>= fun text =>
        pure (modifiers.foldl e.inflector.modify text) := by
  rw [Phrase.expand, Segment.expand]
  rfl

/-- The rule of a number, if there is one. -/
theorem expandNth_eq (n : Nat) (rules : List Rule) :
    Rule.expandNth e enter owner n rules =
      (rules[n]?).elim (throw (.emptyChoice owner))
        fun rule => (Phrase.body rule.segments).expand e enter owner := by
  induction rules generalizing n with
  | nil => rw [Rule.expandNth, List.getElem?_nil, Option.elim_none]
  | cons rule rules ih =>
    cases n with
    | zero =>
      obtain ⟨segments, weight⟩ := rule
      rw [Rule.expandNth, Rule.expand, List.getElem?_cons_zero, Option.elim_some]
      rfl
    | succ n => rw [Rule.expandNth, ih, List.getElem?_cons_succ]

/-- Expands a rule that is picked among some. -/
def Expander.expandPicked (rules : List Rule) : Expansion σ (List Char) :=
  e.pick owner rules >>= fun n => Rule.expandNth e enter owner n rules

theorem expand_choice (branches : List Rule) :
    (Phrase.segment (.choice branches)).expand e enter owner =
      e.step >>= fun _ => e.expandPicked enter owner branches := by
  rw [Phrase.expand, Segment.expand]
  rfl

theorem expand_symbolTarget (name : String) :
    (Phrase.target (.symbol name)).expand e enter owner =
      (Phrase.symbol name).expand e enter owner := by
  rw [Phrase.expand, Target.expand, Phrase.expand]

theorem expand_dereference (inner : Segment) :
    (Phrase.target (.dereference inner)).expand e enter owner =
      (Phrase.segment inner).expand e enter owner >>= fun name =>
        (Phrase.symbol (String.ofList (trim name))).expand e enter owner := by
  change Target.expand e enter owner (.dereference inner) = _
  rw [Target.expand]
  rfl

theorem expand_quoted (text : String) :
    (Phrase.target (.quoted text)).expand e enter owner = pure text.toList := by
  rw [Phrase.expand, Target.expand]

theorem expand_pattern (segments : List Segment) :
    (Phrase.target (.pattern segments)).expand e enter owner =
      (Phrase.body segments).expand e enter owner := by
  rw [Phrase.expand, Target.expand, Phrase.expand]

theorem expand_range (range : DrawRange) :
    (Phrase.target (.range range)).expand e enter owner = e.draw range := by
  rw [Phrase.expand, Target.expand]

theorem expand_nil : (Phrase.row []).expand e enter owner = pure [] := by
  rw [Phrase.expand, Segment.expandAll]

theorem expand_cons (segment : Segment) (segments : List Segment) :
    (Phrase.row (segment :: segments)).expand e enter owner =
      (Phrase.segment segment).expand e enter owner >>= fun first =>
        (Phrase.row segments).expand e enter owner >>= fun rest => pure (first ++ rest) := by
  change Segment.expandAll e enter owner (segment :: segments) = _
  rw [Segment.expandAll]
  rfl

theorem expand_body (segments : List Segment) :
    (Phrase.body segments).expand e enter owner =
      (Phrase.row segments).expand e enter owner >>= fun text =>
        pure (Inline.resolve e.inflector text) := rfl

end

/-- A symbol that is opened. -/
theorem Expander.along_enter_succ {σ : Type} (e : Expander σ) (walk : Walk σ) {room : Nat}
    {name : String} {symbol : Symbol} (h : e.grammar.symbol? name = some symbol) :
    (e.enter (room + 1) name).along walk =
      (e.expandPicked (e.enter room) name symbol.rules >>= fun text =>
        closeSymbol >>= fun _ => pure text).along (openedWalk walk) := by
  unfold enter expandPicked
  rw [along_bind_ok (e.along_declared walk h), bind_assoc]
  rfl

/-- Only a declared symbol with room for it gives a text: that of a rule, between its opening and
its closing. -/
theorem Expander.enter_eq_ok {σ : Type} {e : Expander σ} {room : Nat} {name : String}
    {walk last : Walk σ} {text : List Char}
    (h : (e.enter room name).along walk = (.ok text, last)) :
    ∃ less symbol before, room = less + 1 ∧ e.grammar.symbol? name = some symbol ∧
      (e.expandPicked (e.enter less) name symbol.rules).along (openedWalk walk) =
        (.ok text, before) ∧ last = closedWalk before := by
  cases hsymbol : e.grammar.symbol? name with
  | none =>
    rw [e.along_enter_unknown walk hsymbol] at h
    cases h
  | some symbol =>
    cases room with
    | zero =>
      rw [e.along_enter_zero walk hsymbol] at h
      cases h
    | succ less =>
      rw [e.along_enter_succ walk hsymbol] at h
      obtain ⟨text', before, htext, h⟩ := along_bind_eq_ok.mp h
      cases h
      exact ⟨less, symbol, before, rfl, rfl, htext, rfl⟩

/-- A symbol fails when it is unknown, when there is no room for it, and when its rule fails. -/
theorem Expander.enter_eq_error {σ : Type} {e : Expander σ} {room : Nat} {name : String}
    {walk last : Walk σ} {error : ExpansionError}
    (h : (e.enter room name).along walk = (.error error, last)) :
    (e.grammar.symbol? name = none ∧ error = .unknownSymbol name ∧ last = walk) ∨
      ∃ symbol, e.grammar.symbol? name = some symbol ∧
        ((room = 0 ∧ error = .recursionLimit name (walk.depth + 1) ∧ last = walk) ∨
          ∃ less, room = less + 1 ∧
            (e.expandPicked (e.enter less) name symbol.rules).along (openedWalk walk) =
              (.error error, last)) := by
  cases hsymbol : e.grammar.symbol? name with
  | none =>
    rw [e.along_enter_unknown walk hsymbol] at h
    cases h
    exact Or.inl ⟨rfl, rfl, rfl⟩
  | some symbol =>
    refine Or.inr ⟨symbol, rfl, ?_⟩
    cases room with
    | zero =>
      rw [e.along_enter_zero walk hsymbol] at h
      cases h
      exact Or.inl ⟨rfl, rfl, rfl⟩
    | succ less =>
      refine Or.inr ⟨less, rfl, ?_⟩
      rw [e.along_enter_succ walk hsymbol, along_bind] at h
      cases hpicked : (e.expandPicked (e.enter less) name symbol.rules).along (openedWalk walk) with
      | mk result before =>
        rw [hpicked] at h
        cases result with
        | error failure => exact h
        | ok text => cases h

/-! ## What an expansion asks of its chance -/

/-- A question to the chance of an expansion. -/
inductive Request where
  /-- To pick one of the items with these weights. -/
  | pick (weights : List Double)
  | draw (range : DrawRange)

mutual

/-- The requests of a segment. -/
def Segment.requests : Segment → List Request
  | .literal _ => []
  | .reference target _ => target.requests
  | .choice branches => .pick (branches.map (·.weight)) :: Rule.allRequests branches

/-- The requests of a target. Those of a symbol are its own. -/
def Target.requests : Target → List Request
  | .symbol _ => []
  | .dereference inner => inner.requests
  | .quoted _ => []
  | .pattern segments => Segment.allRequests segments
  | .range range => [.draw range]

/-- The requests of a rule. -/
def Rule.requests : Rule → List Request
  | ⟨segments, _⟩ => Segment.allRequests segments

/-- The requests of a row of segments. -/
def Segment.allRequests : List Segment → List Request
  | [] => []
  | segment :: segments => segment.requests ++ Segment.allRequests segments

/-- The requests of some rules. -/
def Rule.allRequests : List Rule → List Request
  | [] => []
  | rule :: rules => rule.requests ++ Rule.allRequests rules

end

/-- The requests of a phrase. -/
def Phrase.requests : Phrase → List Request
  | .segment s => s.requests
  | .target t => t.requests
  | .row ss => Segment.allRequests ss
  | .body ss => Segment.allRequests ss
  | .symbol _ => []

/-- The requests of a symbol: which rule, and those of each rule. -/
def Symbol.requests (symbol : Symbol) : List Request :=
  .pick (symbol.rules.map (·.weight)) :: Rule.allRequests symbol.rules

/-- The requests of all symbols. -/
def Grammar.requests (g : Grammar) : List Request := g.symbols.flatMap Symbol.requests

theorem requests_subset_allRequests {rules : List Rule} {rule : Rule} (h : rule ∈ rules) :
    (Phrase.body rule.segments).requests ⊆ Rule.allRequests rules := by
  induction rules with
  | nil => cases h
  | cons first rules ih =>
    rw [Rule.allRequests]
    rcases List.mem_cons.mp h with rfl | h
    · obtain ⟨segments, weight⟩ := rule
      exact List.subset_append_left _ _
    · exact fun r hr => List.mem_append_right _ (ih h hr)

theorem requests_subset_of_symbol? {g : Grammar} {name : String} {symbol : Symbol}
    (h : g.symbol? name = some symbol) : symbol.requests ⊆ g.requests := by
  intro request hrequest
  exact List.mem_flatMap.mpr ⟨symbol, List.mem_of_find?_eq_some h, hrequest⟩

theorem requests_subset_of_rule {g : Grammar} {name : String} {symbol : Symbol} {rule : Rule}
    (h : g.symbol? name = some symbol) (hmem : rule ∈ symbol.rules) :
    (Phrase.body rule.segments).requests ⊆ g.requests := by
  intro request hrequest
  apply requests_subset_of_symbol? h
  exact List.mem_cons_of_mem _ (requests_subset_allRequests hmem hrequest)

/-! ## Properties that parts give to the whole -/

section

variable {σ : Type}

/-- A property of expansions that single actions have and that sequences keep. -/
structure Expander.Compositional (e : Expander σ) (Q : ∀ {α : Type}, Expansion σ α → Prop) :
    Prop where
  pure : ∀ {α : Type} (a : α), Q (Pure.pure a : Expansion σ α)
  bind : ∀ {α β : Type} {x : Expansion σ α} {f : α → Expansion σ β},
    Q x → (∀ a, Q (f a)) → Q (x >>= f)
  step : Q e.step
  pick : ∀ owner rules, Q (e.pick owner rules)
  emptyChoice : ∀ owner, Q (throw (.emptyChoice owner) : Expansion σ (List Char))

namespace Expander.Compositional

variable {e : Expander σ} {Q : ∀ {α : Type}, Expansion σ α → Prop}
  {enter : String → Expansion σ (List Char)} {owner : String}

theorem expandPicked (h : e.Compositional Q) {rules : List Rule}
    (hrules : ∀ rule ∈ rules, Q ((Phrase.body rule.segments).expand e enter owner)) :
    Q (e.expandPicked enter owner rules) := by
  refine h.bind (h.pick owner rules) fun n => ?_
  rw [expandNth_eq]
  cases hn : rules[n]? with
  | none => exact h.emptyChoice owner
  | some rule => exact hrules rule (List.mem_of_getElem? hn)

/-- One level of symbols: phrases have the property if their draws and the symbols in them do. -/
theorem expand (h : e.Compositional Q) (henter : ∀ name, Q (enter name)) :
    Phrase.Inductive fun phrase => (∀ range, .draw range ∈ phrase.requests → Q (e.draw range)) →
      Q (phrase.expand e enter owner) where
  literal text := by
    intro _
    rw [expand_literal]
    exact h.bind h.step fun _ => h.pure _
  reference target modifiers ih := by
    intro hdraw
    rw [expand_reference]
    exact h.bind h.step fun _ => h.bind (ih hdraw) fun _ => h.pure _
  choice branches ih := by
    intro hdraw
    rw [expand_choice]
    refine h.bind h.step fun _ => h.expandPicked fun rule hmem => ih rule hmem ?_
    intro range hrange
    refine hdraw range ?_
    rw [Phrase.requests, Segment.requests]
    exact List.mem_cons_of_mem _ (requests_subset_allRequests hmem hrange)
  symbolTarget name ih := by
    intro hdraw
    rw [expand_symbolTarget]
    exact ih hdraw
  dereference inner ih := by
    intro hdraw
    rw [expand_dereference]
    exact h.bind (ih hdraw) fun _ => henter _
  quoted text := by
    intro _
    rw [expand_quoted]
    exact h.pure _
  pattern segments ih := by
    intro hdraw
    rw [expand_pattern]
    exact ih hdraw
  range range := by
    intro hdraw
    rw [expand_range]
    exact hdraw range (by simp [Phrase.requests, Target.requests])
  nil := by
    intro _
    rw [expand_nil]
    exact h.pure _
  cons segment segments ihSegment ihRow := by
    intro hdraw
    rw [expand_cons]
    refine h.bind (ihSegment fun range hrange => hdraw range ?_) fun _ =>
      h.bind (ihRow fun range hrange => hdraw range ?_) fun _ => h.pure _
    · exact List.mem_append_left _ hrange
    · exact List.mem_append_right _ hrange
  body segments ih := by
    intro hdraw
    rw [expand_body]
    exact h.bind (ih hdraw) fun _ => h.pure _
  symbol name := fun _ => henter name

end Expander.Compositional

end

end TextGrammar
