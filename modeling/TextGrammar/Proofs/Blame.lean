-- The law of blame. What the error of an expansion names is at fault: a symbol that is not
-- declared, a symbol or a start in whose own rules nothing can be picked, the budget that is set,
-- or the input that cannot be read.
import TextGrammar.Proofs.DeadSymbols
import TextGrammar.Proofs.WeightedPick

namespace TextGrammar

variable {σ : Type}

/-! ## Picks that give nothing -/

/-- Nothing is picked among the rules, whatever the state of the chance, and nothing drawn. -/
def Chance.PicksNothing (chance : Chance σ) (rules : List Rule) : Prop :=
  ∀ source, chance.pick (rules.map (·.weight)) source = (none, source)

/-- The weights alone decide whether something is picked, and what is picked is there. -/
structure Chance.ByWeight (chance : Chance σ) : Prop where
  nothing : ∀ (rules : List Rule) source,
    (chance.pick (rules.map (·.weight)) source).1 = none → chance.PicksNothing rules
  inRange : ∀ (rules : List Rule) source n,
    (chance.pick (rules.map (·.weight)) source).1 = some n → ∃ rule, rules[n]? = some rule

theorem byWeight_ofWords [WordSource σ] : (Chance.ofWords : Chance σ).ByWeight where
  nothing rules source h := by
    change (pickWeighted _ source).1 = none at h
    intro other
    exact pickWeighted_of_none (pickWeighted_eq_none_iff.mp h)
  inRange rules source n h := by
    have hpicked : (pickWeighted (rules.map (·.weight)) source).1 = some n := h
    obtain ⟨weight, hweight, _⟩ := positive_of_pickWeighted hpicked
    rw [List.getElem?_map, Option.map_eq_some_iff] at hweight
    obtain ⟨rule, hrule, _⟩ := hweight
    exact ⟨rule, hrule⟩

/-! ## Errors and what they name -/

/-- At some depth of the phrase stands a choice among whose branches nothing can be picked. -/
def Phrase.Stuck (chance : Chance σ) (phrase : Phrase) : Prop :=
  ∃ branches, .segment (.choice branches) ∈ phrase.parts ∧ chance.PicksNothing branches

/-- The error names what is at fault. -/
inductive Attributed (e : Expander σ) (start : Start) : ExpansionError → Prop
  | unknownSymbol {name : String} (undeclared : e.grammar.contains name = false) :
    Attributed e start (.unknownSymbol name)
  /-- Nothing can be picked among the rules of the symbol. -/
  | emptySymbol {name : String} {symbol : Symbol}
      (declared : e.grammar.symbol? name = some symbol)
      (nothing : e.chance.PicksNothing symbol.rules) : Attributed e start (.emptyChoice name)
  /-- A choice in a rule of the symbol itself cannot be made. -/
  | stuckSymbol {name : String} {symbol : Symbol} {rule : Rule}
      (declared : e.grammar.symbol? name = some symbol) (mem : rule ∈ symbol.rules)
      (stuck : (Phrase.body rule.segments).Stuck e.chance) : Attributed e start (.emptyChoice name)
  /-- A choice in the rule that the expansion starts from cannot be made. -/
  | stuckStart {owner : String} {phrase : Phrase}
      (begins : start.focus e.grammar = .phrase owner phrase) (stuck : phrase.Stuck e.chance) :
    Attributed e start (.emptyChoice owner)
  | recursionLimit (name : String) (depth : Nat) : Attributed e start (.recursionLimit name depth)
  | stepsExhausted {budget : Nat} (configured : e.limits.stepBudget = some budget) :
    Attributed e start (.stepsExhausted budget)
  | pattern {input : String} {error : SyntaxError} (begins : start = .input input)
      (undeclared : e.grammar.contains input = false)
      (unread : Rule.ofPattern input = .error error) : Attributed e start (.pattern error)
  | draw (fault : DrawFault) : Attributed e start (.draw fault)

/-- A choice that cannot be made is a fault that the error of its owner may name. -/
def Phrase.Answered (e : Expander σ) (start : Start) (owner : String) : Phrase → Prop
  | .segment (.choice branches) =>
    e.chance.PicksNothing branches → Attributed e start (.emptyChoice owner)
  | _ => True

theorem Phrase.all_answered {e : Expander σ} {start : Start} {owner : String} {phrase : Phrase}
    (h : phrase.Stuck e.chance → Attributed e start (.emptyChoice owner)) :
    phrase.All (Phrase.Answered e start owner) := by
  intro part hpart
  unfold Answered
  split
  · exact fun hnothing => h ⟨_, hpart, hnothing⟩
  · trivial

/-! ## Attributed errors -/

section

variable {e : Expander σ} {start : Start}

theorem attributed_step : FailsOnly (Attributed e start) e.step := by
  intro walk error next h
  rcases e.along_step walk with ⟨budget, hbudget, hstep⟩ | hstep
  · rw [hstep] at h
    cases h
    exact .stepsExhausted hbudget
  · rw [hstep] at h
    cases h

theorem attributed_draw (range : DrawRange) : FailsOnly (Attributed e start) (e.draw range) := by
  refine (failsOnly_draw range).mono ?_
  rintro _ ⟨fault, rfl⟩
  exact .draw fault

section

variable (hchance : e.chance.ByWeight) {enter : String → Expansion σ (List Char)}
include hchance

/-- Picking fails for the owner when nothing can be picked; else a rule is expanded. -/
theorem attributed_expandPicked {owner : String} {rules : List Rule}
    (hnothing : e.chance.PicksNothing rules → Attributed e start (.emptyChoice owner))
    (hrules : ∀ rule ∈ rules,
      FailsOnly (Attributed e start) ((Phrase.body rule.segments).expand e enter owner)) :
    FailsOnly (Attributed e start) (e.expandPicked enter owner rules) := by
  intro walk error last h
  have hpicked := e.along_pick walk owner rules
  dsimp only at hpicked
  unfold Expander.expandPicked at h
  cases hdrawn : (e.chance.pick (rules.map (·.weight)) walk.source).1 with
  | none =>
    rw [hdrawn] at hpicked
    rw [along_bind_error hpicked] at h
    cases h
    exact hnothing (hchance.nothing rules _ hdrawn)
  | some n =>
    obtain ⟨rule, hrule⟩ := hchance.inRange rules _ n hdrawn
    rw [hdrawn] at hpicked
    rw [along_bind_ok hpicked, expandNth_eq, hrule, Option.elim_some] at h
    exact hrules rule (List.mem_of_getElem? hrule) _ error last h

/-- One level of symbols: a phrase whose choices its owner answers for has attributed errors if
symbols do. -/
theorem attributed_expand {owner : String}
    (henter : ∀ name, FailsOnly (Attributed e start) (enter name)) :
    Phrase.Inductive fun phrase => phrase.All (Phrase.Answered e start owner) →
      FailsOnly (Attributed e start) (phrase.expand e enter owner) where
  literal text := by
    intro _
    rw [expand_literal]
    exact attributed_step.bind fun _ => failsOnly_pure _
  reference target modifiers ih := by
    intro h
    rw [expand_reference]
    exact attributed_step.bind fun _ => (ih (Phrase.all_reference.mp h).2).bind fun _ =>
      failsOnly_pure _
  choice branches ih := by
    intro h
    obtain ⟨hnothing, hbranches⟩ := Phrase.all_choice.mp h
    rw [expand_choice]
    refine attributed_step.bind fun _ => attributed_expandPicked hchance hnothing ?_
    exact fun rule hmem => ih rule hmem (hbranches rule hmem)
  symbolTarget name ih := by
    intro _
    rw [expand_symbolTarget]
    exact henter name
  dereference inner ih := by
    intro h
    rw [expand_dereference]
    exact (ih (Phrase.all_dereference.mp h).2).bind fun _ => henter _
  quoted text := by
    intro _
    rw [expand_quoted]
    exact failsOnly_pure _
  pattern segments ih := by
    intro h
    rw [expand_pattern]
    exact ih (Phrase.all_pattern.mp h).2
  range range := by
    intro _
    rw [expand_range]
    exact attributed_draw range
  nil := by
    intro _
    rw [expand_nil]
    exact failsOnly_pure _
  cons segment segments ihSegment ihRow := by
    intro h
    obtain ⟨hsegment, hrow⟩ := Phrase.all_cons.mp h
    rw [expand_cons]
    exact (ihSegment hsegment).bind fun _ => (ihRow hrow).bind fun _ => failsOnly_pure _
  body segments ih := by
    intro h
    rw [expand_body]
    exact (ih h).bind fun _ => failsOnly_pure _
  symbol name := fun _ => henter name

end

/-- A symbol answers for its own rules, whoever refers to it. -/
theorem attributed_enter (hchance : e.chance.ByWeight) (room : Nat) (name : String) :
    FailsOnly (Attributed e start) (e.enter room name) := by
  have hroom : ∀ name, True → FailsOnly (Attributed e start) (e.enter room name) := by
    apply failsOnly_enter
    · intro name _ hnone
      refine .unknownSymbol ?_
      rw [← Grammar.symbol?_isSome, hnone]
      rfl
    · exact fun name depth => .recursionLimit name depth
    · intro enter henter name symbol hsymbol
      refine attributed_expandPicked hchance (.emptySymbol hsymbol) fun rule hmem => ?_
      exact (attributed_expand hchance fun name => henter name trivial).all _
        (Phrase.all_answered (.stuckSymbol hsymbol hmem))
  exact hroom name trivial

/-- The start answers for what is at hand first. -/
theorem attributed_focus (hchance : e.chance.ByWeight) (start : Start) :
    FailsOnly (Attributed e start) ((start.focus e.grammar).expand e) := by
  cases hfocus : start.focus e.grammar with
  | phrase owner phrase =>
    exact (attributed_expand hchance (attributed_enter hchance _)).all _
      (Phrase.all_answered (.stuckStart hfocus))
  | text text => exact failsOnly_pure _
  | error error =>
    refine failsOnly_throw ?_
    cases start with
    | symbol name => cases hfocus
    | rule owner rule => cases hfocus
    | input text =>
      simp only [Start.focus] at hfocus
      split at hfocus
      · cases hfocus
      · rename_i hundeclared
        split at hfocus
        · cases hfocus
        · rename_i failure hunread
          cases hfocus
          exact .pattern rfl (by simpa using hundeclared) hunread

end

/-! ## The law -/

/-- A pattern that cannot be read is reported at once, and nothing is drawn. -/
theorem expand_unread {e : Expander σ} {input : String} {error : SyntaxError}
    (hundeclared : e.grammar.contains input = false) (hunread : Rule.ofPattern input = .error error)
    (source : σ) : e.expand input source = ⟨.error (.pattern error), Walk.start source⟩ := by
  unfold Expander.expand
  rw [hundeclared, if_neg Bool.false_ne_true, hunread]

/-- Errors name what is at fault: a name that is not declared; the symbol, or the owner of the rule
that the expansion starts from, in whose own rules nothing can be picked, be it among the rules or
at a choice somewhere in one of them; the budget of steps that is set. And the fault of a pattern
is reported exactly when the input is neither declared nor can be read, before anything is drawn. -/
theorem errors_name_what_is_at_fault [WordSource σ] (g : Grammar) (inflector : Inflector)
    (limits : Limits) (source : σ) :
    let e : Expander σ := .byWords g inflector limits
    (∀ (start : Start) (error : ExpansionError),
      (start.outcome e source).result = .error error → Attributed e start error) ∧
    ∀ (input : String) (error : SyntaxError),
      ((e.expand input source).result = .error (.pattern error) ↔
        g.contains input = false ∧ Rule.ofPattern input = .error error) ∧
      ((e.expand input source).result = .error (.pattern error) →
        (e.expand input source).walk = Walk.start source) := by
  intro e
  have hattributed : ∀ (start : Start) (error : ExpansionError),
      (start.outcome e source).result = .error error → Attributed e start error := by
    intro start error h
    rw [outcome_eq_run] at h
    exact (attributed_focus (e := e) byWeight_ofWords start).run h
  have hpattern : ∀ (input : String) (error : SyntaxError),
      (e.expand input source).result = .error (.pattern error) →
        g.contains input = false ∧ Rule.ofPattern input = .error error := by
    intro input error h
    cases hattributed (.input input) _ h with
    | pattern begins undeclared unread =>
      cases begins
      exact ⟨undeclared, unread⟩
  refine ⟨hattributed, fun input error => ⟨⟨hpattern input error, ?_⟩, fun h => ?_⟩⟩
  · rintro ⟨hundeclared, hunread⟩
    rw [expand_unread (e := e) hundeclared hunread]
  · obtain ⟨hundeclared, hunread⟩ := hpattern input error h
    rw [expand_unread (e := e) hundeclared hunread]

/-- A symbol that refers to another one in a choice. In the other one a name is computed by a
choice that cannot be made. -/
def tangle : Grammar :=
  ⟨[⟨"outer", [⟨[.choice [⟨[.reference (.symbol "inner") []], .one⟩, ⟨[], .zero⟩]], .one⟩], 1⟩,
    ⟨"inner", [⟨[.reference (.pattern [.literal "to ", .reference (.dereference (.choice
      [⟨[.literal "outer"], .zero⟩])) [.upper]]) []], .one⟩], 3⟩]⟩

/-- The law at the tangle: the error names the inner symbol, although the choice in the outer one
is still being made; and a bracket that does not close is reported before anything is drawn. -/
theorem tangle_names_the_inner_symbol :
    let e : Expander WordList := .byWords tangle .english { stepBudget := some 9 }
    (e.expandSymbol "outer" ⟨[7, 8], 0⟩).result = .error (.emptyChoice "inner") ∧
    Attributed e (.symbol "outer") (.emptyChoice "inner") ∧
    (e.expand "[" ⟨[7, 8], 0⟩).walk = Walk.start ⟨[7, 8], 0⟩ := by
  intro e
  have hlaw := errors_name_what_is_at_fault tangle .english { stepBudget := some 9 }
    (⟨[7, 8], 0⟩ : WordList)
  have hresult : (e.expandSymbol "outer" ⟨[7, 8], 0⟩).result = .error (.emptyChoice "inner") := by
    decide +kernel
  have hunread : (e.expand "[" ⟨[7, 8], 0⟩).result =
      .error (.pattern ⟨1, some 1, .unbalancedBracket '['⟩) := by
    decide +kernel
  exact ⟨hresult, hlaw.1 (.symbol "outer") _ hresult, (hlaw.2 _ _).2 hunread⟩

end TextGrammar
