-- The law of enumeration: every rule is tried once, in order of declaration, from where the rules
-- before it left the source. What is left at each place is a list of rules; a trial takes the first
-- of them away, and a symbol that is passed over takes none.
import TextGrammar.Expansion.Enumeration

namespace TextGrammar

namespace Expander

variable {σ : Type} {e : Expander σ}

/-! ## Enumerations -/

/-- The trials that the enumeration yields in turn on its way from one place to another. -/
inductive Yields (e : Expander σ) : Cursor σ → List Trial → Cursor σ → Prop
  | nil (cursor : Cursor σ) : Yields e cursor [] cursor
  | cons {cursor next last : Cursor σ} {trial : Trial} {trials : List Trial} :
    e.nextTrial cursor = (some trial, next) → Yields e next trials last →
    Yields e cursor (trial :: trials) last

/-- The trials that the enumeration yields until there is none. -/
structure Drains (e : Expander σ) (cursor : Cursor σ) (trials : List Trial) (last : Cursor σ) :
    Prop where
  yields : e.Yields cursor trials last
  ends : (e.nextTrial last).1 = none

/-- An enumeration can be drained in one way only. -/
theorem Drains.unique {cursor last last' : Cursor σ} {trials trials' : List Trial}
    (h : e.Drains cursor trials last) (h' : e.Drains cursor trials' last') :
    trials' = trials ∧ last' = last := by
  obtain ⟨hyields, hends⟩ := h
  obtain ⟨hyields', hends'⟩ := h'
  induction hyields generalizing trials' with
  | nil cursor =>
    cases hyields' with
    | nil => exact ⟨rfl, rfl⟩
    | cons hnext _ =>
      rw [hnext] at hends
      cases hends
  | cons hnext _ ih =>
    cases hyields' with
    | nil =>
      rw [hnext] at hends'
      cases hends'
    | cons hnext' hrest' =>
      rw [hnext] at hnext'
      cases hnext'
      obtain ⟨rfl, rfl⟩ := ih hends hrest'
      exact ⟨rfl, rfl⟩

/-! ## What is left -/

/-- The rules that are left at a place, each with its symbol. -/
def remaining (e : Expander σ) (cursor : Cursor σ) : List (Symbol × Rule) :=
  match e.grammar.symbols.drop cursor.symbol with
  | [] => []
  | symbol :: symbols =>
    (symbol.rules.drop cursor.rule).map (symbol, ·) ++ Grammar.rules ⟨symbols⟩

theorem remaining_of_lt {cursor : Cursor σ} (h : cursor.symbol < e.grammar.symbols.length) :
    e.remaining cursor =
      (e.grammar.symbols[cursor.symbol].rules.drop cursor.rule).map
          (e.grammar.symbols[cursor.symbol], ·) ++
        Grammar.rules ⟨e.grammar.symbols.drop (cursor.symbol + 1)⟩ := by
  rw [remaining, List.drop_eq_getElem_cons h]

/-- At the first rule of a symbol all rules from there on are left. -/
theorem remaining_first (symbol : Nat) (source : σ) :
    e.remaining ⟨symbol, 0, source⟩ = Grammar.rules ⟨e.grammar.symbols.drop symbol⟩ := by
  rw [remaining]
  dsimp only
  cases e.grammar.symbols.drop symbol with
  | nil => rfl
  | cons symbol symbols => rfl

/-- Behind the last rule there is no trial. -/
theorem nextTrial_of_nil {cursor : Cursor σ} (h : e.remaining cursor = []) :
    ∃ symbol rule, e.nextTrial cursor = (none, ⟨symbol, rule, cursor.source⟩) := by
  fun_induction nextTrial e cursor with
  | case1 cursor hsymbol symbol rule hrule =>
    obtain ⟨hlt, _⟩ := List.getElem?_eq_some_iff.mp hrule
    rw [remaining_of_lt hsymbol, List.drop_eq_getElem_cons hlt] at h
    cases h
  | case2 cursor hsymbol symbol hrule ih =>
    rw [remaining_of_lt hsymbol, List.append_eq_nil_iff] at h
    exact ih (by rw [remaining_first, h.2])
  | case3 cursor hsymbol => exact ⟨_, _, rfl⟩

/-- A trial is of the first rule that is left, and takes it away. -/
theorem nextTrial_of_cons {cursor : Cursor σ} {symbol : Symbol} {rule : Rule}
    {rest : List (Symbol × Rule)} (h : e.remaining cursor = (symbol, rule) :: rest) :
    let outcome := e.expandRule symbol.name rule cursor.source
    ∃ next, e.nextTrial cursor = (some ⟨symbol, rule, outcome.result⟩, next) ∧
      next.source = outcome.walk.source ∧ e.remaining next = rest := by
  fun_induction nextTrial e cursor with
  | case1 cursor hsymbol found first hfirst outcome =>
    obtain ⟨hlt, rfl⟩ := List.getElem?_eq_some_iff.mp hfirst
    rw [remaining_of_lt hsymbol, List.drop_eq_getElem_cons hlt, List.map_cons,
      List.cons_append] at h
    cases h
    let next : Cursor σ := ⟨cursor.symbol, cursor.rule + 1, outcome.walk.source⟩
    have hnext : next.symbol < e.grammar.symbols.length := hsymbol
    exact ⟨next, rfl, rfl, remaining_of_lt hnext⟩
  | case2 cursor hsymbol found hnone ih =>
    -- No rule of the symbol is left, so all that is left comes from the symbols behind it.
    rw [remaining_of_lt hsymbol, List.drop_eq_nil_of_le (List.getElem?_eq_none_iff.mp hnone)] at h
    exact ih (by rw [remaining_first]; exact h)
  | case3 cursor hsymbol =>
    rw [remaining, List.drop_eq_nil_of_le (Nat.le_of_not_lt hsymbol)] at h
    cases h

/-! ## Trials in turn -/

/-- The source as trials leave it that are made in turn. -/
def sourceAfter (e : Expander σ) (source : σ) (trials : List Trial) : σ :=
  trials.foldl
    (fun source trial => (e.expandRule trial.symbol.name trial.rule source).walk.source) source

/-- A run over the first rules that are left yields their trials. -/
theorem yields_tryRules {cursor : Cursor σ} {front back : List (Symbol × Rule)}
    (h : e.remaining cursor = front ++ back) :
    ∃ next, e.Yields cursor (e.tryRules front cursor.source).1 next ∧
      next.source = (e.tryRules front cursor.source).2 ∧ e.remaining next = back := by
  induction front generalizing cursor with
  | nil => exact ⟨cursor, .nil cursor, rfl, h⟩
  | cons entry front ih =>
    obtain ⟨symbol, rule⟩ := entry
    obtain ⟨next, hnext, hsource, hremaining⟩ := nextTrial_of_cons h
    obtain ⟨last, hyields, hlast, hback⟩ := ih hremaining
    rw [hsource] at hyields hlast
    exact ⟨last, .cons hnext hyields, hlast, hback⟩

theorem rules_tryRules (rules : List (Symbol × Rule)) (source : σ) :
    (e.tryRules rules source).1.map (fun trial => (trial.symbol, trial.rule)) = rules := by
  induction rules generalizing source with
  | nil => rfl
  | cons entry rules ih => exact congrArg (entry :: ·) (ih _)

theorem source_tryRules (rules : List (Symbol × Rule)) (source : σ) :
    (e.tryRules rules source).2 = e.sourceAfter source (e.tryRules rules source).1 := by
  induction rules generalizing source with
  | nil => rfl
  | cons entry rules ih => exact ih _

theorem take_tryRules (n : Nat) (rules : List (Symbol × Rule)) (source : σ) :
    (e.tryRules (rules.take n) source).1 = (e.tryRules rules source).1.take n := by
  induction n generalizing rules source with
  | zero => rfl
  | succ n ih =>
    cases rules with
    | nil => rfl
    | cons entry rules => exact congrArg (_ :: ·) (ih rules _)

/-- Each trial starts from where the ones before it left the source, failed ones included. -/
theorem result_tryRules {rules : List (Symbol × Rule)} {source : σ} {before after : List Trial}
    {trial : Trial} (h : (e.tryRules rules source).1 = before ++ trial :: after) :
    trial.result = (e.expandRule trial.symbol.name trial.rule
      (e.sourceAfter source before)).result := by
  induction rules generalizing source before with
  | nil => exact absurd h (by simp [tryRules])
  | cons entry rules ih =>
    obtain ⟨symbol, rule⟩ := entry
    cases before with
    | nil =>
      cases h
      rfl
    | cons first before =>
      obtain ⟨rfl, hrest⟩ := List.cons_eq_cons.mp h
      have hresult := ih hrest
      exact hresult

/-! ## The law -/

/-- Every rule is tried once. Whatever the grammar is, with symbols that have no rule, names that
come twice, and rules that weigh nothing or fail, an enumeration comes to its end, in one way. It
has then tried each rule of each symbol in order of declaration, and each trial gave what the
expansion of that rule on behalf of that symbol gives from where the trials before it left the
source. From the end no trial comes any more. To try all rules is to drain the enumeration, and to
try the first `n` is to ask it for `n` trials. -/
theorem every_rule_is_tried_once (e : Expander σ) (source : σ) :
    ∃ trials last, e.Drains (.start source) trials last ∧
      (∀ trials' last', e.Drains (.start source) trials' last' →
        trials' = trials ∧ last' = last) ∧
      trials.map (fun trial => (trial.symbol, trial.rule)) = e.grammar.rules ∧
      (∀ before trial after, trials = before ++ trial :: after →
        trial.result = (e.expandRule trial.symbol.name trial.rule
          (e.sourceAfter source before)).result) ∧
      last.source = e.sourceAfter source trials ∧
      e.tryAll none source = (trials, last.source) ∧
      ∀ n, ∃ cursor, e.Yields (.start source) (trials.take n) cursor ∧
        cursor.source = e.sourceAfter source (trials.take n) ∧
        e.tryAll (some n) source = (trials.take n, cursor.source) := by
  have hstart : e.remaining (.start source) = e.grammar.rules := remaining_first 0 source
  have hall : e.remaining (.start source) = e.grammar.rules ++ [] := by
    rw [hstart, List.append_nil]
  obtain ⟨last, hyields, hlast, hnone⟩ := yields_tryRules hall
  obtain ⟨_, _, hend⟩ := nextTrial_of_nil hnone
  have hdrains : e.Drains (.start source) (e.tryRules e.grammar.rules source).1 last :=
    ⟨hyields, by rw [hend]⟩
  refine ⟨_, last, hdrains, fun _ _ h => hdrains.unique h, rules_tryRules _ _,
    fun _ _ _ h => result_tryRules h, hlast.trans (source_tryRules _ _), ?_, ?_⟩
  · rw [hlast]
    rfl
  · intro n
    have hfirst : e.remaining (.start source) =
        e.grammar.rules.take n ++ e.grammar.rules.drop n := by
      rw [hstart, List.take_append_drop]
    obtain ⟨cursor, hyields, hcursor, _⟩ := yields_tryRules hfirst
    have hsource : (Cursor.start source).source = source := rfl
    rw [hsource] at hyields hcursor
    rw [← take_tryRules]
    exact ⟨cursor, hyields, hcursor.trans (source_tryRules _ _), by rw [hcursor]; rfl⟩

end Expander

end TextGrammar
