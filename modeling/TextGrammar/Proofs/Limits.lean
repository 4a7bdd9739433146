-- The law of limits: all that a limit does is to cut an expansion off. An expansion that no limit
-- stopped is the same under all limits that allow what it used. Under other limits it goes the same
-- way up to the first moment at which one of them is reached, and fails there.
import Mathlib.Order.Bounds.Defs
import TextGrammar.Proofs.OpenSymbols

namespace TextGrammar

variable {σ α β : Type}

/-! ## What an expansion uses of its limits -/

/-- The error of a limit. -/
def ExpansionError.isLimit : ExpansionError → Bool
  | .recursionLimit _ _ => true
  | .stepsExhausted _ => true
  | _ => false

/-- How much of the limits is used: the most symbols that were open at once, and the steps. -/
structure Use where
  deepest : Nat
  steps : Nat
deriving DecidableEq

/-- What a walk has used so far. -/
def Walk.use (walk : Walk σ) : Use := ⟨walk.deepest, walk.steps⟩

/-- So many symbols may be open at once, and so many steps taken. -/
structure Limits.Allow (limits : Limits) (use : Use) : Prop where
  depth : use.deepest ≤ limits.maxDepth
  steps : ∀ budget, limits.stepBudget = some budget → use.steps ≤ budget

/-- No limit is lower in the other limits. -/
structure Limits.NoneLower (limits other : Limits) : Prop where
  depth : limits.maxDepth ≤ other.maxDepth
  steps : ∀ budget, other.stepBudget = some budget →
    ∃ lower, limits.stepBudget = some lower ∧ lower ≤ budget

/-- The same expander under other limits. -/
def Expander.within (e : Expander σ) (limits : Limits) : Expander σ := { e with limits }

/-- One is used up to the other. -/
structure Use.Le (a b : Use) : Prop where
  deepest : a.deepest ≤ b.deepest
  steps : a.steps ≤ b.steps

theorem Use.Le.refl (a : Use) : a.Le a := ⟨Nat.le_refl _, Nat.le_refl _⟩

theorem Use.Le.trans {a b c : Use} (hab : a.Le b) (hbc : b.Le c) : a.Le c :=
  ⟨Nat.le_trans hab.deepest hbc.deepest, Nat.le_trans hab.steps hbc.steps⟩

theorem Limits.Allow.of_le {limits : Limits} {a b : Use} (h : limits.Allow b) (hle : a.Le b) :
    limits.Allow a :=
  ⟨Nat.le_trans hle.deepest h.depth, fun budget hbudget =>
    Nat.le_trans hle.steps (h.steps budget hbudget)⟩

theorem Limits.Allow.of_noneLower {limits other : Limits} {use : Use} (h : limits.Allow use)
    (hlower : limits.NoneLower other) : other.Allow use := by
  refine ⟨Nat.le_trans h.depth hlower.depth, ?_⟩
  intro budget hbudget
  obtain ⟨lower, hlimit, hle⟩ := hlower.steps budget hbudget
  exact Nat.le_trans (h.steps lower hlimit) hle

/-! ## Moments at which a limit is reached -/

namespace Moment

/-- At the moment a limit stands in the way: a declared symbol comes up while as many are open as
may be, or a segment when all steps of the budget are taken. -/
inductive Reaches (g : Grammar) (limits : Limits) : Moment σ → ExpansionError → Prop
  | depth {owner name : String} {frames : List Frame} {walk : Walk σ}
      (declared : (g.symbol? name).isSome) (full : limits.maxDepth ≤ walk.depth) :
      Reaches g limits ⟨.phrase owner (.symbol name), frames, walk⟩
        (.recursionLimit name (limits.maxDepth + 1))
  | steps {owner : String} {segment : Segment} {frames : List Frame} {walk : Walk σ} {budget : Nat}
      (limited : limits.stepBudget = some budget) (spent : budget ≤ walk.steps) :
      Reaches g limits ⟨.phrase owner (.segment segment), frames, walk⟩ (.stepsExhausted budget)

/-- The walk after the moment, as long as no limit stands in the way and but for what is drawn: a
segment takes a step, a declared symbol is opened, and the text of a symbol closes it. -/
def walkAfter (g : Grammar) : Moment σ → Walk σ
  | ⟨.phrase _ (.segment _), _, walk⟩ => { walk with steps := walk.steps + 1 }
  | ⟨.phrase _ (.symbol name), _, walk⟩ =>
    if (g.symbol? name).isSome then Expander.openedWalk walk else walk
  | ⟨.text _, .symbol _ :: _, walk⟩ => Expander.closedWalk walk
  | ⟨_, _, walk⟩ => walk

/-- A segment is about to be expanded. -/
def isSegment : Moment σ → Bool
  | ⟨.phrase _ (.segment _), _, _⟩ => true
  | _ => false

variable {g : Grammar} {limits : Limits} {moment : Moment σ} {error : ExpansionError}

theorem steps_walkAfter (g : Grammar) (moment : Moment σ) :
    (moment.walkAfter g).steps = moment.walk.steps + moment.isSegment.toNat := by
  obtain ⟨focus, frames, walk⟩ := moment
  cases focus with
  | phrase owner phrase =>
    cases phrase with
    | symbol name =>
      simp only [walkAfter]
      split <;> rfl
    | segment segment => rfl
    | target target => rfl
    | row segments => rfl
    | body segments => rfl
  | text text =>
    cases frames with
    | nil => rfl
    | cons frame frames => cases frame <;> rfl
  | error error => rfl

theorem use_le_walkAfter (g : Grammar) (moment : Moment σ) :
    moment.walk.use.Le (moment.walkAfter g).use := by
  unfold walkAfter
  split
  · exact ⟨Nat.le_refl _, Nat.le_succ _⟩
  · split
    · exact ⟨Nat.le_max_left _ _, Nat.le_refl _⟩
    · exact .refl _
  · exact .refl _
  · exact .refl _

/-- A limit that is reached allows no more. -/
theorem Reaches.not_allow (h : moment.Reaches g limits error) :
    ¬limits.Allow (moment.walkAfter g).use := by
  intro hallow
  cases h with
  | @depth owner name frames walk declared full =>
    have hdepth := hallow.depth
    simp only [walkAfter, declared, if_true] at hdepth
    have hdeepest : walk.depth + 1 ≤ (Expander.openedWalk walk).deepest := Nat.le_max_right _ _
    exact absurd (Nat.le_trans hdeepest hdepth) (by omega)
  | steps limited spent =>
    have hsteps := hallow.steps _ limited
    simp only [walkAfter, Walk.use] at hsteps
    omega

/-- Limits that are not reached allow one more. -/
theorem allow_walkAfter (hallow : limits.Allow moment.walk.use)
    (h : ∀ error, ¬moment.Reaches g limits error) : limits.Allow (moment.walkAfter g).use := by
  unfold walkAfter
  split
  · rename_i owner segment frames walk
    refine ⟨hallow.depth, fun budget hbudget => ?_⟩
    by_contra hspent
    apply h _ (.steps hbudget _)
    simp only [Walk.use] at hspent
    omega
  · rename_i owner name frames walk
    split
    · rename_i hdeclared
      have hroom : ¬limits.maxDepth ≤ walk.depth := fun hfull => h _ (.depth hdeclared hfull)
      have hdepth : walk.deepest ≤ limits.maxDepth := hallow.depth
      refine ⟨?_, hallow.steps⟩
      change max walk.deepest (walk.depth + 1) ≤ limits.maxDepth
      omega
    · exact hallow
  · exact hallow
  · exact hallow

/-- No more symbols are open than were at once, before and after. -/
theorem deepest_walkAfter (hdepth : moment.walk.depth ≤ moment.walk.deepest) :
    (moment.walkAfter g).deepest = max moment.walk.deepest (moment.walkAfter g).depth := by
  unfold walkAfter
  split
  · exact (Nat.max_eq_left hdepth).symm
  · split
    · rfl
    · exact (Nat.max_eq_left hdepth).symm
  · exact (Nat.max_eq_left (Nat.le_trans (Nat.sub_le _ _) hdepth)).symm
  · exact (Nat.max_eq_left hdepth).symm

end Moment

/-! ## One step -/

/-- The action changes nothing of the walk but the state of the chance. -/
def OnlyDraws (x : Expansion σ α) : Prop :=
  ∀ walk, ∃ source, (x.along walk).2 = { walk with source }

theorem onlyDraws_pure (a : α) : OnlyDraws (pure a : Expansion σ α) := fun walk => ⟨walk.source, rfl⟩

theorem OnlyDraws.bind {x : Expansion σ α} {f : α → Expansion σ β} (hx : OnlyDraws x)
    (hf : ∀ a, OnlyDraws (f a)) : OnlyDraws (x >>= f) := by
  intro walk
  obtain ⟨source, hsource⟩ := hx walk
  rw [along_bind]
  cases hresult : x.along walk with
  | mk result next =>
    rw [hresult] at hsource
    subst hsource
    cases result with
    | error error => exact ⟨source, rfl⟩
    | ok a =>
      obtain ⟨last, hlast⟩ := hf a { walk with source }
      exact ⟨last, hlast⟩

section

variable (e : Expander σ)

theorem onlyDraws_pick (owner : String) (rules : List Rule) : OnlyDraws (e.pick owner rules) := by
  intro walk
  rw [e.along_pick]
  exact ⟨_, rfl⟩

theorem onlyDraws_drawBy (draw : σ → Except DrawFault α × σ) :
    OnlyDraws (Expander.drawBy draw) := by
  intro walk
  rw [Expander.along_drawBy]
  exact ⟨_, rfl⟩

theorem onlyDraws_draw (range : DrawRange) : OnlyDraws (e.draw range) := by
  cases range with
  | number low high => exact (onlyDraws_drawBy _).bind fun _ => onlyDraws_pure _
  | letter low high => exact (onlyDraws_drawBy _).bind fun _ => onlyDraws_pure _

variable {e} {walk : Walk σ} {frames left : List Frame} {owner name : String}

theorem walk_act {x : Expansion σ α} {go : α → Walk σ → Moment σ} (hx : OnlyDraws x)
    (hgo : ∀ a next, (go a next).walk = next) :
    ∃ source, (Moment.act x frames walk go).walk = { walk with source } := by
  obtain ⟨source, hsource⟩ := hx walk
  refine ⟨source, ?_⟩
  unfold Moment.act
  cases hresult : x.along walk with
  | mk result next =>
    rw [hresult] at hsource
    cases result with
    | error error => exact hsource
    | ok a => exact (hgo a next).trans hsource

theorem walk_ofRule (rules : List Rule) (n : Nat) :
    (Moment.ofRule owner rules frames n walk).walk = walk := by
  unfold Moment.ofRule
  cases rules[n]? <;> rfl

theorem walk_pick (rules : List Rule) : ∃ source,
    (Moment.act (e.pick owner rules) left walk (.ofRule owner rules frames)).walk =
      { walk with source } :=
  walk_act (onlyDraws_pick e owner rules) fun n _ => walk_ofRule rules n

/-- A segment with a step left for it. -/
theorem next_segment {segment : Segment}
    (hleft : ∀ budget, e.limits.stepBudget = some budget → walk.steps < budget) :
    e.next ⟨.phrase owner (.segment segment), frames, walk⟩ =
      some (e.beginSegment owner frames { walk with steps := walk.steps + 1 } segment) := by
  have hstep : e.step.along walk = (.ok (), { walk with steps := walk.steps + 1 }) := by
    unfold Expander.step
    rw [along_bind_ok (along_get walk)]
    cases hbudget : e.limits.stepBudget with
    | none => rfl
    | some budget =>
      simp only [if_neg (Nat.not_le.mpr (hleft budget hbudget))]
      rfl
  simp only [Expander.next, Expander.begin, Moment.act, hstep]

/-- A segment without a step left for it. -/
theorem next_segment_spent {segment : Segment} {budget : Nat}
    (hbudget : e.limits.stepBudget = some budget) (hspent : budget ≤ walk.steps) :
    e.next ⟨.phrase owner (.segment segment), frames, walk⟩ =
      some ⟨.error (.stepsExhausted budget), frames, walk⟩ := by
  have hstep : e.step.along walk = (.error (.stepsExhausted budget), walk) := by
    unfold Expander.step
    rw [along_bind_ok (along_get walk)]
    simp only [hbudget, if_pos hspent]
    rfl
  simp only [Expander.next, Expander.begin, Moment.act, hstep]

/-- A declared symbol that may be opened. -/
theorem next_symbol {symbol : Symbol} (hsymbol : e.grammar.symbol? name = some symbol)
    (hroom : walk.depth < e.limits.maxDepth) :
    e.next ⟨.phrase owner (.symbol name), frames, walk⟩ =
      some (.act (e.pick name symbol.rules) (.symbol name :: frames) (Expander.openedWalk walk)
        (.ofRule name symbol.rules (.symbol name :: frames))) := by
  have hlimit : ¬e.limits.maxDepth < walk.depth + 1 := by omega
  simp only [Expander.next, Expander.begin, Expander.beginSymbol, hsymbol, if_neg hlimit]

end

section

variable {e : Expander σ} {a b : Moment σ} {error : ExpansionError} {limits : Limits}

/-- At a limit the expansion fails. -/
theorem next_of_reaches (hbalanced : a.Balanced e.limits.maxDepth)
    (h : a.Reaches e.grammar e.limits error) : e.next a = some ⟨.error error, a.frames, a.walk⟩ := by
  cases h with
  | @depth owner name frames walk declared full =>
    obtain ⟨symbol, hsymbol⟩ := Option.isSome_iff_exists.mp declared
    have hcounted := hbalanced.counted
    have hwithin := hbalanced.within
    dsimp only at hcounted
    exact next_of_full owner frames hsymbol (by omega)
  | steps limited spent => exact next_segment_spent limited spent

theorem left_of_not_reaches {owner : String} {segment : Segment} {frames : List Frame}
    {walk : Walk σ} {g : Grammar} (h : ∀ error,
      ¬Moment.Reaches g limits ⟨.phrase owner (.segment segment), frames, walk⟩ error) :
    ∀ budget, limits.stepBudget = some budget → walk.steps < budget := by
  intro budget hbudget
  by_contra hspent
  exact h _ (.steps hbudget (Nat.le_of_not_lt hspent))

theorem room_of_not_reaches {owner name : String} {frames : List Frame} {walk : Walk σ}
    {g : Grammar} (hdeclared : (g.symbol? name).isSome) (h : ∀ error,
      ¬Moment.Reaches g limits ⟨.phrase owner (.symbol name), frames, walk⟩ error) :
    walk.depth < limits.maxDepth := by
  by_contra hfull
  exact h _ (.depth hdeclared (Nat.le_of_not_lt hfull))

/-- What a step does to the walk when no limit stops it. -/
theorem walk_next (hnext : e.next a = some b)
    (hfree : ∀ error, ¬a.Reaches e.grammar e.limits error) :
    ∃ source, b.walk = { a.walkAfter e.grammar with source } := by
  match a, hnext with
  | ⟨.phrase owner phrase, frames, walk⟩, hnext =>
    cases phrase with
    | segment segment =>
      rw [next_segment (left_of_not_reaches hfree)] at hnext
      cases hnext
      cases segment with
      | literal text => exact ⟨_, rfl⟩
      | reference target modifiers => exact ⟨_, rfl⟩
      | choice branches => exact walk_pick branches
    | target target =>
      cases hnext
      cases target with
      | symbol name => exact ⟨_, rfl⟩
      | dereference inner => exact ⟨_, rfl⟩
      | quoted text => exact ⟨_, rfl⟩
      | pattern segments => exact ⟨_, rfl⟩
      | range range => exact walk_act (onlyDraws_draw e range) fun _ _ => rfl
    | row segments =>
      cases hnext
      cases segments <;> exact ⟨_, rfl⟩
    | body segments =>
      cases hnext
      exact ⟨_, rfl⟩
    | symbol name =>
      cases hsymbol : e.grammar.symbol? name with
      | none =>
        simp only [Expander.next, Expander.begin, Expander.beginSymbol, hsymbol] at hnext
        cases hnext
        refine ⟨walk.source, ?_⟩
        simp [Moment.walkAfter, hsymbol]
      | some symbol =>
        have hdeclared : (e.grammar.symbol? name).isSome := by rw [hsymbol]; rfl
        rw [next_symbol hsymbol (room_of_not_reaches hdeclared hfree)] at hnext
        cases hnext
        simp only [Moment.walkAfter, hdeclared, if_true]
        exact walk_pick symbol.rules
  | ⟨.text text, frame :: frames, walk⟩, hnext =>
    cases hnext
    cases frame <;> exact ⟨_, rfl⟩

theorem use_next (hnext : e.next a = some b)
    (hfree : ∀ error, ¬a.Reaches e.grammar e.limits error) :
    b.walk.use = (a.walkAfter e.grammar).use := by
  obtain ⟨source, hwalk⟩ := walk_next hnext hfree
  rw [hwalk]
  rfl

/-- Where neither of two limits is reached, they make no difference. -/
theorem next_within (hfree : ∀ error, ¬a.Reaches e.grammar e.limits error)
    (hother : ∀ error, ¬a.Reaches e.grammar limits error) :
    (e.within limits).next a = e.next a := by
  match a with
  | ⟨.phrase owner phrase, frames, walk⟩ =>
    cases phrase with
    | segment segment =>
      rw [next_segment (left_of_not_reaches hfree),
        next_segment (e := e.within limits) (left_of_not_reaches hother)]
      cases segment <;> rfl
    | target target => cases target <;> rfl
    | row segments => cases segments <;> rfl
    | body segments => rfl
    | symbol name =>
      cases hsymbol : e.grammar.symbol? name with
      | none =>
        simp only [Expander.next, Expander.begin, Expander.beginSymbol, Expander.within, hsymbol]
      | some symbol =>
        have hdeclared : (e.grammar.symbol? name).isSome := by rw [hsymbol]; rfl
        rw [next_symbol hsymbol (room_of_not_reaches hdeclared hfree),
          next_symbol (e := e.within limits) hsymbol (room_of_not_reaches hdeclared hother)]
        rfl
  | ⟨.text text, [], walk⟩ => rfl
  | ⟨.text text, frame :: frames, walk⟩ => cases frame <;> rfl
  | ⟨.error error, frames, walk⟩ => rfl

end

/-! ## Runs -/

section

variable {e : Expander σ} {limits : Limits} {source : σ} {start : Start} {moment : Moment σ}

/-- At every moment no more is used than the limits allow. -/
theorem allow_steps (hsteps : e.Steps (start.moment e source) moment) :
    e.limits.Allow moment.walk.use := by
  induction hsteps with
  | refl => exact ⟨Nat.zero_le _, fun _ _ => Nat.zero_le _⟩
  | @tail a b hbefore hnext ih =>
    by_cases hreaches : ∃ error, a.Reaches e.grammar e.limits error
    · obtain ⟨error, hreaches⟩ := hreaches
      have hbalanced := balanced_steps hbefore (balanced_start source start)
      rw [next_of_reaches hbalanced hreaches] at hnext
      cases hnext
      exact ih
    · have hfree := not_exists.mp hreaches
      rw [use_next hnext hfree]
      exact Moment.allow_walkAfter ih hfree

/-- An expansion that reaches a limit fails there. -/
theorem outcome_of_reaches {error : ExpansionError}
    (hsteps : e.Steps (start.moment e source) moment)
    (h : moment.Reaches e.grammar e.limits error) :
    start.outcome e source = ⟨.error error, moment.walk⟩ := by
  obtain ⟨last, hlast, hend, houtcome⟩ := exists_last e source start
  have hbalanced := balanced_steps hsteps (balanced_start source start)
  have hfails := hsteps.tail (next_of_reaches hbalanced h)
  rw [hlast.last_unique e hend hfails rfl] at houtcome
  exact (Option.some.inj houtcome).symm

theorem isLimit_of_reaches {g : Grammar} {error : ExpansionError}
    (h : moment.Reaches g limits error) : error.isLimit = true := by
  cases h <;> rfl

/-- No moment of the expansion reaches one of its limits. -/
def NeverReaches (e : Expander σ) (first : Moment σ) : Prop :=
  ∀ moment, e.Steps first moment → ∀ error, ¬moment.Reaches e.grammar e.limits error

theorem neverReaches (hresult : ∀ error, (start.outcome e source).result = .error error →
    error.isLimit = false) : NeverReaches e (start.moment e source) := by
  intro moment hsteps error hreaches
  have houtcome := outcome_of_reaches hsteps hreaches
  have hlimit := hresult error (by rw [houtcome])
  rw [isLimit_of_reaches hreaches] at hlimit
  cases hlimit

variable {first a b : Moment σ}

/-- What is used only grows. -/
theorem use_le_of_steps (hnever : NeverReaches e first) (ha : e.Steps first a)
    (hsteps : e.Steps a b) : a.walk.use.Le b.walk.use := by
  induction hsteps with
  | refl => exact .refl _
  | @tail b c hbefore hnext ih =>
    have hle := Moment.use_le_walkAfter e.grammar b
    rw [← use_next hnext (hnever b (ha.trans hbefore))] at hle
    exact ih.trans hle

/-- Steps lead from a moment to another, and so many segments are expanded on the way. -/
inductive Expander.Expands (e : Expander σ) (first : Moment σ) : Nat → Moment σ → Prop
  | refl : Expands e first 0 first
  | tail {n : Nat} {a b : Moment σ} (before : Expands e first n a) (next : e.next a = some b) :
      Expands e first (n + a.isSegment.toNat) b

/-- The steps that are counted are the segments that are expanded. -/
theorem expands_of_steps (hnever : NeverReaches e first) (hfirst : first.walk.steps = 0)
    (hsteps : e.Steps first moment) : e.Expands first moment.walk.steps moment := by
  induction hsteps with
  | refl =>
    rw [hfirst]
    exact .refl
  | @tail a b hbefore hnext ih =>
    have hcount : b.walk.steps = a.walk.steps + a.isSegment.toNat := by
      rw [← Moment.steps_walkAfter e.grammar]
      exact congrArg Use.steps (use_next hnext (hnever a hbefore))
    rw [hcount]
    exact .tail ih hnext

/-- A moment that is not the last uses what it is due to use. -/
theorem walkAfter_le_of_steps (hnever : NeverReaches e first) (ha : e.Steps first a)
    (hsteps : e.Steps a b) (hne : a ≠ b) : (a.walkAfter e.grammar).use.Le b.walk.use := by
  rcases Relation.ReflTransGen.cases_head hsteps with rfl | ⟨c, hnext, hrest⟩
  · exact absurd rfl hne
  · rw [← use_next hnext (hnever a ha)]
    exact use_le_of_steps hnever (ha.tail hnext) hrest

/-- The most symbols that were open at once were open at some moment. -/
theorem exists_openSymbols_eq_deepest (hnever : NeverReaches e (start.moment e source))
    (hsteps : e.Steps (start.moment e source) moment) :
    moment.openSymbols ≤ moment.walk.deepest ∧
      ∃ peak, e.Steps (start.moment e source) peak ∧ peak.openSymbols = moment.walk.deepest := by
  induction hsteps with
  | refl => exact ⟨Nat.le_refl _, _, .refl, rfl⟩
  | @tail a b hbefore hnext ih =>
    obtain ⟨hle, peak, hpeak, hopen⟩ := ih
    have hcounted := (balanced_steps hbefore (balanced_start source start)).counted
    have hb := (balanced_steps (hbefore.tail hnext) (balanced_start source start)).counted
    obtain ⟨drawn, hwalk⟩ := walk_next hnext (hnever a hbefore)
    have hdeepest : b.walk.deepest = max a.walk.deepest b.walk.depth := by
      rw [hwalk]
      exact Moment.deepest_walkAfter (by omega)
    refine ⟨by omega, ?_⟩
    rcases Nat.le_total b.walk.depth a.walk.deepest with hlow | hhigh
    · exact ⟨peak, hpeak, by omega⟩
    · exact ⟨b, hbefore.tail hnext, by omega⟩

/-- Under other limits an expansion goes the same way, at least up to a moment at which one of
them is reached. -/
theorem steps_within_or_reaches (hnever : NeverReaches e first) (hsteps : e.Steps first moment) :
    (e.within limits).Steps first moment ∨
      ∃ cut error, e.Steps first cut ∧ (e.within limits).Steps first cut ∧
        cut.Reaches e.grammar limits error := by
  induction hsteps with
  | refl => exact Or.inl .refl
  | @tail a b hbefore hnext ih =>
    rcases ih with hcommon | hcut
    · by_cases hreaches : ∃ error, a.Reaches e.grammar limits error
      · obtain ⟨error, hreaches⟩ := hreaches
        exact Or.inr ⟨a, error, hbefore, hcommon, hreaches⟩
      · have hwithin := next_within (hnever a hbefore) (not_exists.mp hreaches)
        exact Or.inl (hcommon.tail (hwithin.trans hnext))
    · exact Or.inr hcut

/-- The end is the same under all limits. -/
theorem next_within_eq_none (h : e.next moment = none) : (e.within limits).next moment = none := by
  match moment, h with
  | ⟨.text text, [], walk⟩, _ => rfl
  | ⟨.error error, frames, walk⟩, _ => rfl

/-- A moment at which a limit is reached is not the last. -/
theorem ne_of_reaches {g : Grammar} {error : ExpansionError} (h : moment.Reaches g limits error)
    (hlast : e.next b = none) : moment ≠ b := by
  rintro rfl
  cases h <;> cases hlast

end

/-! ## The law -/

/-- The expansion is cut off at its first moment at which one of the limits is reached: the same
moments lead to it as without them. -/
structure CutOff (e : Expander σ) (limits : Limits) (first cut : Moment σ)
    (error : ExpansionError) : Prop where
  onTheWay : e.Steps first cut
  shared : (e.within limits).Steps first cut
  reaches : cut.Reaches e.grammar limits error
  isFirst : ∀ earlier other, e.Steps first earlier → e.Steps earlier cut →
    earlier.Reaches e.grammar limits other → earlier = cut

section

variable {e : Expander σ} {limits : Limits} {source : σ} {start : Start}

theorem walk_of_outcome? {moment : Moment σ} {outcome : Expander.Outcome σ}
    (h : moment.outcome? = some outcome) : moment.walk = outcome.walk := by
  match moment, h with
  | ⟨.text text, [], walk⟩, h =>
    cases h
    rfl
  | ⟨.error error, frames, walk⟩, h =>
    cases h
    rfl

/-- Limits that allow what an expansion uses change nothing. -/
theorem outcome_within (hnever : NeverReaches e (start.moment e source))
    (hallow : limits.Allow (start.outcome e source).walk.use) :
    start.outcome (e.within limits) source = start.outcome e source := by
  obtain ⟨last, hsteps, hend, houtcome⟩ := exists_last e source start
  rw [← walk_of_outcome? houtcome] at hallow
  rcases steps_within_or_reaches hnever hsteps with hcommon | ⟨cut, error, hcut, _, hreaches⟩
  · obtain ⟨other, hother, hotherEnd, hotherOutcome⟩ := exists_last (e.within limits) source start
    have hsame : last = other := hcommon.last_unique _ (next_within_eq_none hend) hother hotherEnd
    rw [← hsame, houtcome] at hotherOutcome
    exact (Option.some.inj hotherOutcome).symm
  · have hrest := hcut.to_last e hsteps hend
    have hle := walkAfter_le_of_steps hnever hcut hrest (ne_of_reaches hreaches hend)
    exact absurd (hallow.of_le hle) hreaches.not_allow

/-- Limits that do not allow what an expansion uses cut it off. -/
theorem exists_cutOff (hnever : NeverReaches e (start.moment e source))
    (hallow : ¬limits.Allow (start.outcome e source).walk.use) :
    ∃ cut error, CutOff e limits (start.moment e source) cut error ∧
      start.outcome (e.within limits) source = ⟨.error error, cut.walk⟩ := by
  obtain ⟨last, hsteps, hend, houtcome⟩ := exists_last e source start
  rw [← walk_of_outcome? houtcome] at hallow
  rcases steps_within_or_reaches hnever hsteps with hcommon | ⟨cut, error, hcut, hshared, hreaches⟩
  · exact absurd (allow_steps (e := e.within limits) hcommon) hallow
  · refine ⟨cut, error, ⟨hcut, hshared, hreaches, ?_⟩,
      outcome_of_reaches (e := e.within limits) hshared hreaches⟩
    intro earlier other hearlier hrest hother
    -- Had the limit been reached before, it would not allow what is used by now.
    by_contra hne
    have hle := walkAfter_le_of_steps hnever hearlier hrest hne
    exact hother.not_allow ((allow_steps (e := e.within limits) hshared).of_le hle)

theorem isGreatest_deepest (hnever : NeverReaches e (start.moment e source)) :
    IsGreatest {n | ∃ moment, e.Steps (start.moment e source) moment ∧ moment.openSymbols = n}
      (start.outcome e source).walk.deepest := by
  obtain ⟨last, hsteps, hend, houtcome⟩ := exists_last e source start
  rw [← walk_of_outcome? houtcome]
  refine ⟨(exists_openSymbols_eq_deepest hnever hsteps).2, ?_⟩
  rintro n ⟨moment, hmoment, rfl⟩
  have hle := use_le_of_steps hnever hmoment (hmoment.to_last e hsteps hend)
  exact Nat.le_trans (exists_openSymbols_eq_deepest hnever hmoment).1 hle.deepest

end

/-- Limits only cut off. Take an expansion that ends otherwise than by a limit, and what it used:
the segments it expanded, and the most symbols that were open at a moment of it. Limits that allow
so much give the same, drawn from the same words; so do limits none of which is lower than its own.
All others cut it off at the first moment that reaches one of them, with the error of that limit. -/
theorem limits_only_cut_off (e : Expander σ) (start : Start) (source : σ)
    (hresult : ∀ error, (start.outcome e source).result = .error error → error.isLimit = false) :
    (∃ last, e.Expands (start.moment e source) (start.outcome e source).walk.steps last ∧
      last.outcome? = some (start.outcome e source)) ∧
    IsGreatest {n | ∃ moment, e.Steps (start.moment e source) moment ∧ moment.openSymbols = n}
      (start.outcome e source).walk.deepest ∧
    ∀ limits : Limits,
      (limits.Allow (start.outcome e source).walk.use →
        start.outcome (e.within limits) source = start.outcome e source) ∧
      (¬limits.Allow (start.outcome e source).walk.use →
        ∃ cut error, CutOff e limits (start.moment e source) cut error ∧
          start.outcome (e.within limits) source = ⟨.error error, cut.walk⟩) ∧
      (e.limits.NoneLower limits →
        start.outcome (e.within limits) source = start.outcome e source) := by
  have hnever := neverReaches hresult
  obtain ⟨last, hsteps, _, houtcome⟩ := exists_last e source start
  refine ⟨⟨last, ?_, houtcome⟩, isGreatest_deepest hnever, fun limits =>
    ⟨outcome_within hnever, exists_cutOff hnever, fun hlower => ?_⟩⟩
  · rw [← walk_of_outcome? houtcome]
    exact expands_of_steps hnever rfl hsteps
  · apply outcome_within hnever
    rw [← walk_of_outcome? houtcome]
    exact (allow_steps hsteps).of_noneLower hlower

/-- A grammar whose start takes six steps and opens two symbols at once. -/
def triple : Grammar :=
  let b : Segment := .reference (.symbol "b") []
  ⟨[⟨"a", [⟨[b, b, b], .one⟩], 1⟩, ⟨"b", [⟨[.literal "x"], .one⟩], 3⟩]⟩

def tripleExpander : Expander WordList := ⟨triple, .ofWords, .english, {}⟩

/-- The law at a grammar that needs six steps: six are enough, and five cut it off. -/
theorem triple_is_cut_off_at_five_steps :
    ((Start.symbol "a").outcome tripleExpander ⟨[], 0⟩).result = .ok "xxx" ∧
    (Start.symbol "a").outcome (tripleExpander.within ⟨2, some 6⟩) ⟨[], 0⟩ =
      (Start.symbol "a").outcome tripleExpander ⟨[], 0⟩ ∧
    ∃ cut error, CutOff tripleExpander ⟨2, some 5⟩
        ((Start.symbol "a").moment tripleExpander ⟨[], 0⟩) cut error ∧
      (Start.symbol "a").outcome (tripleExpander.within ⟨2, some 5⟩) ⟨[], 0⟩ =
        ⟨.error error, cut.walk⟩ := by
  have hresult : ((Start.symbol "a").outcome tripleExpander ⟨[], 0⟩).result = .ok "xxx" := by
    decide +kernel
  have huse : ((Start.symbol "a").outcome tripleExpander ⟨[], 0⟩).walk.use = ⟨2, 6⟩ := by
    decide +kernel
  have hlaw := limits_only_cut_off tripleExpander (.symbol "a") ⟨[], 0⟩ (by
    intro error herror
    rw [hresult] at herror
    cases herror)
  rw [huse] at hlaw
  refine ⟨hresult, (hlaw.2.2 _).1 ⟨Nat.le_refl _, ?_⟩, (hlaw.2.2 _).2.1 fun hallow => ?_⟩
  · rintro _ ⟨⟩
    exact Nat.le_refl _
  · exact absurd (hallow.steps 5 rfl) (by decide)

end TextGrammar
