-- The law of clean grammars. A compiled grammar without computed names, against which the check
-- reports neither an undefined reference nor a symbol that weighs nothing, and whose choices can
-- all be made, is expanded to text unless a limit is reached: no name is unknown, and each pick
-- succeeds.
import TextGrammar.Proofs.DeadSymbols
import TextGrammar.Proofs.Limits
import TextGrammar.Proofs.WeightedPick

namespace TextGrammar

variable {σ : Type} {g : Grammar}

/-! ## Clean grammars -/

/-- One of the rules can be picked, and no weight is in the way. -/
structure CanPick (rules : List Rule) : Prop where
  weights : ∀ rule ∈ rules, rule.weight.IsWeight
  positive : ∃ rule ∈ rules, Double.zero.lt rule.weight = true

/-- No expansion of the grammar meets a name that it does not know or a pick that it cannot
make. -/
structure Grammar.Clean (g : Grammar) : Prop where
  parts : ∀ part ∈ g.parts, part.Derivable g
  choices : ∀ branches, .segment (.choice branches) ∈ g.parts → CanPick branches
  symbols : ∀ symbol ∈ g.symbols, CanPick symbol.rules

/-- A weight that is not zero is above zero. -/
theorem positive_of_isWeight {weight : Double} (h : weight.IsWeight)
    (hzero : weight.le .zero = false) : Double.zero.lt weight = true := by
  obtain ⟨m, rfl⟩ := h
  rw [Double.lt_iff counts_zero (Double.counts_finite m)]
  by_contra hnot
  have hunits : m.units = 0 := by omega
  simp [Double.le, Double.compare?, Double.zero, Double.signedUnits, hunits] at hzero

/-- A compiled grammar is clean when it computes no names, its choices can be made, and the check
reports neither an undefined reference nor a symbol that weighs nothing. -/
theorem clean_of_compile {source : String} (hcompile : Grammar.compile source = .ok g)
    (hdirect : g.Direct) (hchoose : g.CanChoose)
    (hdefined : ∀ name line target, .undefinedReference name line target ∉ g.lint)
    (hweight : ∀ name line, .zeroWeight name line ∉ g.lint) : g.Clean where
  parts := derivable_of_compile hcompile hdirect hdefined
  choices branches hpart := ⟨proper_of_compile hcompile _ hpart, hchoose branches hpart⟩
  symbols symbol hsymbol := by
    have hweights : ∀ rule ∈ symbol.rules, rule.weight.IsWeight := by
      intro rule hrule
      cases allCanonical_of_compile hcompile symbol hsymbol rule hrule with
      | mk _ _ isWeight _ => exact isWeight
    refine ⟨hweights, ?_⟩
    have hweighs : Grammar.weighsNothing symbol = false := by
      by_contra hnothing
      apply hweight symbol.name symbol.line
      exact Grammar.zeroWeight_mem_lint.mpr
        ⟨symbol, hsymbol, by simpa using hnothing, rfl, rfl⟩
    obtain ⟨rule, hrule, hzero⟩ := List.all_eq_false.mp hweighs
    exact ⟨rule, hrule, positive_of_isWeight (hweights rule hrule) (by simpa using hzero)⟩

/-! ## Chances that can be relied on -/

/-- When a rule can be picked, one is picked; and a draw from a range that is in order has a
result unless the source gives no usable word. -/
structure Chance.Reliable (chance : Chance σ) : Prop where
  pick : ∀ rules, CanPick rules → ∀ source, ∃ n rule,
    (chance.pick (rules.map (·.weight)) source).1 = some n ∧ rules[n]? = some rule
  number : ∀ low high, low ≤ high → ∀ source fault,
    (chance.number low high source).1 = .error fault → fault = .exhausted
  letter : ∀ low high, low ≤ high → ∀ source fault,
    (chance.letter low high source).1 = .error fault → fault = .exhausted

theorem reliable_ofWords [WordSource σ] : (Chance.ofWords : Chance σ).Reliable where
  pick := by
    intro rules h source
    have hpicked : ∃ n, (pickWeighted (rules.map (·.weight)) source).1 = some n := by
      apply exists_pickWeighted
      · simpa [Double.IsWeight] using h.weights
      · simpa using h.positive
    obtain ⟨n, hn⟩ := hpicked
    obtain ⟨weight, hweight, _⟩ := positive_of_pickWeighted hn
    rw [List.getElem?_map, Option.map_eq_some_iff] at hweight
    obtain ⟨rule, hrule, _⟩ := hweight
    exact ⟨n, rule, hn, hrule⟩
  number _ _ hbounds _ _ h := eq_exhausted_of_drawNumber hbounds h
  letter _ _ hbounds _ _ h := eq_exhausted_of_drawLetter hbounds h

/-! ## Errors of a clean grammar -/

/-- The error of a limit; or of a draw from a range of the grammar by words none of which is
usable. Where words go on for ever, such a draw does not return. -/
def OnLimits (e : Expander σ) (error : ExpansionError) : Prop :=
  error.isLimit = true ∨ error = .draw .exhausted ∧
    ∃ range, .target (.range range) ∈ e.grammar.parts ∧ ¬e.chance.Returns range

section

variable {e : Expander σ} (hreliable : e.chance.Reliable) (hclean : e.grammar.Clean)

theorem onLimits_step : FailsOnly (OnLimits e) e.step := by
  refine failsOnly_step.mono ?_
  rintro _ ⟨budget, rfl⟩
  exact Or.inl rfl

theorem onLimits_drawBy {α : Type} {draw : σ → Except DrawFault α × σ}
    (hdraw : ∀ source fault, (draw source).1 = .error fault → fault = .exhausted)
    (hexhausted : OnLimits e (.draw .exhausted)) :
    FailsOnly (OnLimits e) (Expander.drawBy draw) := by
  refine (failsOnly_drawBy draw).mono ?_
  rintro _ ⟨source, fault, hfault, rfl⟩
  rw [hdraw source fault hfault]
  exact hexhausted

include hreliable

/-- A range that is in order is drawn from, unless no word is usable. -/
theorem onLimits_draw {range : DrawRange} (hproper : range.Proper)
    (hpart : .target (.range range) ∈ e.grammar.parts) :
    FailsOnly (OnLimits e) (e.draw range) := by
  by_cases hreturns : e.chance.Returns range
  · intro walk error next h
    obtain ⟨fault, rfl⟩ := failsOnly_draw range walk error next h
    exact absurd rfl (noFault_draw hreturns walk _ next h fault)
  · have hexhausted : OnLimits e (.draw .exhausted) := Or.inr ⟨rfl, range, hpart, hreturns⟩
    cases range with
    | number low high =>
      have hdraw := hreliable.number low high hproper
      exact (onLimits_drawBy hdraw hexhausted).bind fun _ => failsOnly_pure _
    | letter low high =>
      have hdraw := hreliable.letter low high hproper.1
      exact (onLimits_drawBy hdraw hexhausted).bind fun _ => failsOnly_pure _

/-- Where a rule can be picked, an expansion fails only as the rules do. -/
theorem failsOnly_expandPicked {errors : ExpansionError → Prop}
    {enter : String → Expansion σ (List Char)} {owner : String} {rules : List Rule}
    (hpick : CanPick rules) (hrules : ∀ rule ∈ rules,
      FailsOnly errors ((Phrase.body rule.segments).expand e enter owner)) :
    FailsOnly errors (e.expandPicked enter owner rules) := by
  intro walk error last h
  obtain ⟨n, rule, hn, hrule⟩ := hreliable.pick rules hpick walk.source
  have hpicked := e.along_pick walk owner rules
  simp only [hn, Option.elim_some] at hpicked
  unfold Expander.expandPicked at h
  rw [along_bind_ok hpicked, expandNth_eq, hrule, Option.elim_some] at h
  exact hrules rule (List.mem_of_getElem? hrule) _ error last h

include hclean

/-- One level of symbols: a phrase that is made of parts of the grammar fails only on limits if
declared symbols do. -/
theorem onLimits_expand {enter : String → Expansion σ (List Char)} {owner : String}
    (henter : ∀ name, e.grammar.contains name = true → FailsOnly (OnLimits e) (enter name)) :
    Phrase.Inductive fun phrase => phrase.All (· ∈ e.grammar.parts) →
      FailsOnly (OnLimits e) (phrase.expand e enter owner) where
  literal text := by
    intro _
    rw [expand_literal]
    exact onLimits_step.bind fun _ => failsOnly_pure _
  reference target modifiers ih := by
    intro hparts
    rw [expand_reference]
    exact onLimits_step.bind fun _ => (ih (Phrase.all_reference.mp hparts).2).bind fun _ =>
      failsOnly_pure _
  choice branches ih := by
    intro hparts
    obtain ⟨hpart, hbranches⟩ := Phrase.all_choice.mp hparts
    rw [expand_choice]
    refine onLimits_step.bind fun _ =>
      failsOnly_expandPicked hreliable (hclean.choices _ hpart) fun rule hmem => ?_
    exact ih rule hmem (hbranches rule hmem)
  symbolTarget name ih := by
    intro hparts
    rw [expand_symbolTarget]
    exact ih (Phrase.all_symbol.mpr (Phrase.all_symbolTarget.mp hparts).2)
  dereference inner _ := by
    intro hparts
    exact absurd (hclean.parts _ (Phrase.all_dereference.mp hparts).1) id
  quoted text := by
    intro _
    rw [expand_quoted]
    exact failsOnly_pure _
  pattern segments ih := by
    intro hparts
    rw [expand_pattern]
    exact ih (Phrase.all_pattern.mp hparts).2
  range range := by
    intro hparts
    have hpart := Phrase.all_range.mp hparts
    rw [expand_range]
    exact onLimits_draw hreliable (hclean.parts _ hpart) hpart
  nil := by
    intro _
    rw [expand_nil]
    exact failsOnly_pure _
  cons segment segments ihSegment ihRow := by
    intro hparts
    obtain ⟨hsegment, hrow⟩ := Phrase.all_cons.mp hparts
    rw [expand_cons]
    exact (ihSegment hsegment).bind fun _ => (ihRow hrow).bind fun _ => failsOnly_pure _
  body segments ih := by
    intro hparts
    rw [expand_body]
    exact (ih hparts).bind fun _ => failsOnly_pure _
  symbol name := by
    intro hparts
    exact henter name (hclean.parts _ (Phrase.all_symbol.mp hparts))

/-- A rule of the grammar fails only on limits if declared symbols do. -/
theorem onLimits_rule {enter : String → Expansion σ (List Char)}
    (henter : ∀ name, e.grammar.contains name = true → FailsOnly (OnLimits e) (enter name))
    (owner : String) {symbol : Symbol} {rule : Rule} (hsymbol : symbol ∈ e.grammar.symbols)
    (hrule : rule ∈ symbol.rules) :
    FailsOnly (OnLimits e) ((Phrase.body rule.segments).expand e enter owner) :=
  (onLimits_expand hreliable hclean henter).all _
    (Phrase.all_of_rule (fun _ hpart => hpart) hsymbol hrule)

/-- A declared symbol fails only on limits, however many may be open. -/
theorem onLimits_enter (room : Nat) : ∀ name, e.grammar.contains name = true →
    FailsOnly (OnLimits e) (e.enter room name) := by
  apply failsOnly_enter
  · intro name hdeclared hnone
    rw [← Grammar.symbol?_isSome, hnone] at hdeclared
    cases hdeclared
  · exact fun name depth => Or.inl rfl
  · intro enter henter name symbol hsymbol
    have hmem := List.mem_of_find?_eq_some hsymbol
    refine failsOnly_expandPicked hreliable (hclean.symbols symbol hmem) fun rule hrule => ?_
    exact onLimits_rule hreliable hclean henter name hmem hrule

end

/-! ## Trials -/

/-- A trial is of a rule that is tried, and of nothing else. -/
theorem mem_tryRules {e : Expander σ} {rules : List (Symbol × Rule)} {source : σ}
    {trial : Expander.Trial} (h : trial ∈ (e.tryRules rules source).1) :
    (trial.symbol, trial.rule) ∈ rules ∧
      ∃ before, trial.result = (e.expandRule trial.symbol.name trial.rule before).result := by
  induction rules generalizing source with
  | nil => cases h
  | cons first rules ih =>
    obtain ⟨symbol, rule⟩ := first
    unfold Expander.tryRules at h
    rcases List.mem_cons.mp h with rfl | h
    · exact ⟨List.mem_cons_self, source, rfl⟩
    · obtain ⟨hmem, hbefore⟩ := ih h
      exact ⟨List.mem_cons_of_mem _ hmem, hbefore⟩

theorem mem_tryAll {e : Expander σ} {limit : Option Nat} {source : σ} {trial : Expander.Trial}
    (h : trial ∈ (e.tryAll limit source).1) :
    (trial.symbol ∈ e.grammar.symbols ∧ trial.rule ∈ trial.symbol.rules) ∧
      ∃ before, trial.result = (e.expandRule trial.symbol.name trial.rule before).result := by
  obtain ⟨hmem, hbefore⟩ := mem_tryRules h
  refine ⟨?_, hbefore⟩
  have hrules : (trial.symbol, trial.rule) ∈ e.grammar.rules := by
    cases limit with
    | none => exact hmem
    | some limit => exact List.mem_of_mem_take hmem
  simpa [Grammar.rules] using hrules

/-! ## The law -/

/-- A clean grammar fails only on limits. When a compiled grammar computes no names, each of its
choices has a branch of positive weight, and the check reports neither an undefined reference nor
a symbol that weighs nothing, then no expansion of a declared symbol and no trial of a rule fails
but by a limit, whatever words are drawn; a draw that returns is never at fault. -/
theorem clean_grammar_fails_only_on_limits (source : String) (g : Grammar)
    (hcompile : Grammar.compile source = .ok g) (hdirect : g.Direct) (hchoose : g.CanChoose)
    (hdefined : ∀ name line target, .undefinedReference name line target ∉ g.lint)
    (hweight : ∀ name line, .zeroWeight name line ∉ g.lint)
    (σ : Type) [WordSource σ] (inflector : Inflector) (limits : Limits) (words : σ) :
    let e : Expander σ := .byWords g inflector limits
    (∀ name, g.contains name = true →
      ∀ error, (e.expandSymbol name words).result = .error error → OnLimits e error) ∧
    ∀ limit, ∀ trial ∈ (e.tryAll limit words).1,
      ∀ error, trial.result = .error error → OnLimits e error := by
  intro e
  have hclean : g.Clean := clean_of_compile hcompile hdirect hchoose hdefined hweight
  have henter := onLimits_enter (e := e) reliable_ofWords hclean e.limits.maxDepth
  constructor
  · intro name hdeclared error h
    exact FailsOnly.run (henter name hdeclared) h
  · intro limit trial htrial error h
    obtain ⟨⟨hsymbol, hrule⟩, before, hresult⟩ := mem_tryAll htrial
    rw [hresult, expandRule_eq] at h
    have hbody := onLimits_rule (e := e) reliable_ofWords hclean henter trial.symbol.name hsymbol
      hrule
    exact FailsOnly.run hbody h

/-- A song that never ends, with a choice in a choice and a branch that weighs nothing. -/
def songSource : String := "song\n  [[verse]|hum^0] [a-d] [song]\nverse\n  la [la|[lo|li]^0]\n"

/-- The law at the song: it fails, and does so on a limit, as do its rules. -/
theorem song_fails_only_on_limits : ∃ g error, Grammar.compile songSource = .ok g ∧
    let e : Expander WordList := .byWords g .english { maxDepth := 3 }
    (e.expandSymbol "song" ⟨[1, 8], 0⟩).result = .error error ∧ OnLimits e error ∧
    ∀ trial ∈ (e.tryAll none ⟨[1, 8], 0⟩).1,
      ∀ error, trial.result = .error error → OnLimits e error := by
  have hcheck : (match Grammar.compile songSource with
      | .ok g => decide (g.Direct ∧ g.CanChoose ∧ g.lint = [.noExit "song" 1] ∧
          g.contains "song" = true) &&
        !((Expander.byWords g .english { maxDepth := 3 }).expandSymbol "song"
          (⟨[1, 8], 0⟩ : WordList)).result.isOk
      | .error _ => false) = true := by decide +kernel
  cases hcompile : Grammar.compile songSource with
  | error error =>
    rw [hcompile] at hcheck
    cases hcheck
  | ok g =>
    rw [hcompile] at hcheck
    obtain ⟨hclean, hfails⟩ := Bool.and_eq_true_iff.mp hcheck
    obtain ⟨hdirect, hchoose, hlint, hdeclared⟩ := of_decide_eq_true hclean
    have hlaw := clean_grammar_fails_only_on_limits songSource g hcompile hdirect hchoose
      (by simp [hlint]) (by simp [hlint]) WordList .english { maxDepth := 3 } ⟨[1, 8], 0⟩
    cases hresult : ((Expander.byWords g .english { maxDepth := 3 }).expandSymbol "song"
        (⟨[1, 8], 0⟩ : WordList)).result with
    | ok text => simp [hresult, Except.isOk, Except.toBool] at hfails
    | error error => exact ⟨g, error, rfl, hresult, hlaw.1 _ hdeclared _ hresult, hlaw.2 _⟩

end TextGrammar
