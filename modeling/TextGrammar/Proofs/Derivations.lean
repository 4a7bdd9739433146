-- Derivations: which texts a grammar gives, told without walks and chances. A text that an
-- expansion gives is derivable when the chance answers as weights and ranges allow, and each
-- derivable text is given when the chance answers by a script of the right draws.
import TextGrammar.Proofs.Answers
import TextGrammar.Proofs.Phrases
import TextGrammar.Proofs.RangeDraw
import TextGrammar.Proofs.WeightedPick

namespace TextGrammar

/-! ## Derivations -/

/-- The text is a derivation of the phrase. -/
inductive Derives (g : Grammar) (inflector : Inflector) : Phrase → List Char → Prop
  | literal (text : String) : Derives g inflector (.segment (.literal text)) text.toList
  | reference {target : Target} {text : List Char} (modifiers : List Modifier)
      (ofTarget : Derives g inflector (.target target) text) :
      Derives g inflector (.segment (.reference target modifiers))
        (modifiers.foldl inflector.modify text)
  | choice {branches : List Rule} {rule : Rule} {text : List Char} (mem : rule ∈ branches)
      (positive : Double.zero.lt rule.weight = true)
      (ofRule : Derives g inflector (.body rule.segments) text) :
      Derives g inflector (.segment (.choice branches)) text
  | symbolTarget {name : String} {text : List Char}
      (ofSymbol : Derives g inflector (.symbol name) text) :
      Derives g inflector (.target (.symbol name)) text
  | dereference {inner : Segment} {name text : List Char}
      (ofInner : Derives g inflector (.segment inner) name)
      (ofSymbol : Derives g inflector (.symbol (String.ofList (trim name))) text) :
      Derives g inflector (.target (.dereference inner)) text
  | quoted (text : String) : Derives g inflector (.target (.quoted text)) text.toList
  | pattern {segments : List Segment} {text : List Char}
      (ofBody : Derives g inflector (.body segments) text) :
      Derives g inflector (.target (.pattern segments)) text
  | number {low high x : Int64} (above : low ≤ x) (below : x ≤ high) :
      Derives g inflector (.target (.range (.number low high))) (spellInt x.toInt)
  | letter {low high x : Char} (above : low ≤ x) (below : x ≤ high) :
      Derives g inflector (.target (.range (.letter low high))) [x]
  | nil : Derives g inflector (.row []) []
  | cons {segment : Segment} {segments : List Segment} {first rest : List Char}
      (ofSegment : Derives g inflector (.segment segment) first)
      (ofRow : Derives g inflector (.row segments) rest) :
      Derives g inflector (.row (segment :: segments)) (first ++ rest)
  | body {segments : List Segment} {text : List Char}
      (ofRow : Derives g inflector (.row segments) text) :
      Derives g inflector (.body segments) (Inline.resolve inflector text)
  | symbol {name : String} {symbol : Symbol} {rule : Rule} {text : List Char}
      (declared : g.symbol? name = some symbol) (mem : rule ∈ symbol.rules)
      (positive : Double.zero.lt rule.weight = true)
      (ofRule : Derives g inflector (.body rule.segments) text) :
      Derives g inflector (.symbol name) text

/-! ## Chances that answer as they may -/

/-- Whatever the chance answers to a request is allowed: an item of positive weight, or a value
between the bounds. -/
def Chance.Obeys {σ : Type} (chance : Chance σ) : Request → Prop
  | .pick weights => ∀ source n, (chance.pick weights source).1 = some n →
    ∃ weight, weights[n]? = some weight ∧ Double.zero.lt weight = true
  | .draw (.number low high) => ∀ source x, (chance.number low high source).1 = .ok x →
    low ≤ x ∧ x ≤ high
  | .draw (.letter low high) => ∀ source x, (chance.letter low high source).1 = .ok x →
    low ≤ x ∧ x ≤ high

section

variable {σ : Type} {e : Expander σ} {walk last : Walk σ}

theorem rule_of_pick {owner : String} {rules : List Rule} {n : Nat}
    (hobeys : e.chance.Obeys (.pick (rules.map (·.weight))))
    (h : (e.pick owner rules).along walk = (.ok n, last)) :
    ∃ rule, rules[n]? = some rule ∧ Double.zero.lt rule.weight = true := by
  rw [e.along_pick] at h
  have hpicked : (e.chance.pick (rules.map (·.weight)) walk.source).1 = some n := by
    cases hp : (e.chance.pick (rules.map (·.weight)) walk.source).1 with
    | none => simp [hp] at h
    | some m =>
      simp only [hp, Option.elim_some, Prod.mk.injEq, Except.ok.injEq] at h
      rw [h.1]
  obtain ⟨weight, hweight, hpositive⟩ := hobeys _ n hpicked
  rw [List.getElem?_map, Option.map_eq_some_iff] at hweight
  obtain ⟨rule, hrule, rfl⟩ := hweight
  exact ⟨rule, hrule, hpositive⟩

/-- What is picked and expanded is a rule of positive weight. -/
theorem rule_of_expandPicked {enter : String → Expansion σ (List Char)} {owner : String}
    {rules : List Rule} {text : List Char}
    (hobeys : e.chance.Obeys (.pick (rules.map (·.weight))))
    (h : (e.expandPicked enter owner rules).along walk = (.ok text, last)) :
    ∃ rule ∈ rules, Double.zero.lt rule.weight = true ∧
      ∃ next, ((Phrase.body rule.segments).expand e enter owner).along next = (.ok text, last) := by
  obtain ⟨n, next, hn, h⟩ := along_bind_eq_ok.mp h
  obtain ⟨rule, hrule, hpositive⟩ := rule_of_pick hobeys hn
  rw [expandNth_eq, hrule, Option.elim_some] at h
  exact ⟨rule, List.mem_of_getElem? hrule, hpositive, next, h⟩

theorem drawBy_eq_ok {α : Type} {draw : σ → Except DrawFault α × σ} {x : α}
    (h : (Expander.drawBy draw).along walk = (.ok x, last)) : (draw walk.source).1 = .ok x := by
  rw [Expander.along_drawBy] at h
  exact mapError_eq_ok.mp (Prod.mk.inj h).1

theorem derives_of_draw {range : DrawRange} {text : List Char}
    (hobeys : e.chance.Obeys (.draw range))
    (h : (e.draw range).along walk = (.ok text, last)) :
    Derives e.grammar e.inflector (.target (.range range)) text := by
  cases range with
  | number low high =>
    obtain ⟨x, next, hx, h⟩ := along_bind_eq_ok.mp h
    obtain ⟨hlow, hhigh⟩ := hobeys _ x (drawBy_eq_ok hx)
    cases h
    exact .number hlow hhigh
  | letter low high =>
    obtain ⟨x, next, hx, h⟩ := along_bind_eq_ok.mp h
    obtain ⟨hlow, hhigh⟩ := hobeys _ x (drawBy_eq_ok hx)
    cases h
    exact .letter hlow hhigh

/-- An expander of symbols that gives derivable texts only. -/
def GivesDerivable (e : Expander σ) (enter : String → Expansion σ (List Char)) : Prop :=
  ∀ name walk text last, (enter name).along walk = (.ok text, last) →
    Derives e.grammar e.inflector (.symbol name) text

/-- One level of symbols: what a phrase expands to is derivable if what the symbols in it expand
to is. -/
theorem derives_of_expand {enter : String → Expansion σ (List Char)}
    (henter : GivesDerivable e enter) (owner : String) :
    Phrase.Inductive fun phrase => (∀ request ∈ phrase.requests, e.chance.Obeys request) →
      ∀ walk text last, (phrase.expand e enter owner).along walk = (.ok text, last) →
        Derives e.grammar e.inflector phrase text where
  literal text := by
    intro _ walk text' last h
    rw [expand_literal] at h
    obtain ⟨_, next, _, h⟩ := along_bind_eq_ok.mp h
    cases h
    exact .literal text
  reference target modifiers ih := by
    intro hobeys walk text last h
    rw [expand_reference] at h
    obtain ⟨_, next, _, h⟩ := along_bind_eq_ok.mp h
    obtain ⟨text', next', htext, h⟩ := along_bind_eq_ok.mp h
    cases h
    exact .reference modifiers (ih hobeys next text' _ htext)
  choice branches ih := by
    intro hobeys walk text last h
    have hpick : e.chance.Obeys (.pick (branches.map (·.weight))) :=
      hobeys _ (by rw [Phrase.requests, Segment.requests]; exact List.mem_cons_self)
    rw [expand_choice] at h
    obtain ⟨_, next, _, h⟩ := along_bind_eq_ok.mp h
    obtain ⟨rule, hmem, hpositive, next', hrule⟩ := rule_of_expandPicked hpick h
    refine .choice hmem hpositive (ih rule hmem ?_ next' text last hrule)
    intro request hrequest
    refine hobeys request ?_
    rw [Phrase.requests, Segment.requests]
    exact List.mem_cons_of_mem _ (requests_subset_allRequests hmem hrequest)
  symbolTarget name ih := by
    intro _ walk text last h
    rw [expand_symbolTarget] at h
    exact .symbolTarget (henter name walk text last h)
  dereference inner ih := by
    intro hobeys walk text last h
    rw [expand_dereference] at h
    obtain ⟨name, next, hname, h⟩ := along_bind_eq_ok.mp h
    exact .dereference (ih hobeys walk name next hname) (henter _ next text last h)
  quoted text := by
    intro _ walk text' last h
    rw [expand_quoted] at h
    cases h
    exact .quoted text
  pattern segments ih := by
    intro hobeys walk text last h
    rw [expand_pattern] at h
    exact .pattern (ih hobeys walk text last h)
  range range := by
    intro hobeys walk text last h
    rw [expand_range] at h
    exact derives_of_draw (hobeys _ (by simp [Phrase.requests, Target.requests])) h
  nil := by
    intro _ walk text last h
    rw [expand_nil] at h
    cases h
    exact .nil
  cons segment segments ihSegment ihRow := by
    intro hobeys walk text last h
    rw [Phrase.requests, Segment.allRequests, List.forall_mem_append] at hobeys
    rw [expand_cons] at h
    obtain ⟨first, next, hfirst, h⟩ := along_bind_eq_ok.mp h
    obtain ⟨rest, next', hrest, h⟩ := along_bind_eq_ok.mp h
    cases h
    exact .cons (ihSegment hobeys.1 walk first next hfirst) (ihRow hobeys.2 next rest _ hrest)
  body segments ih := by
    intro hobeys walk text last h
    rw [expand_body] at h
    obtain ⟨text', next, htext, h⟩ := along_bind_eq_ok.mp h
    cases h
    exact .body (ih hobeys walk text' _ htext)
  symbol name := fun _ => henter name

/-- Level by level, symbols expand to derivable texts. -/
theorem givesDerivable_enter (hobeys : ∀ request ∈ e.grammar.requests, e.chance.Obeys request)
    (room : Nat) : GivesDerivable e (e.enter room) := by
  induction room with
  | zero =>
    intro name walk text last h
    obtain ⟨less, _, _, hroom, _⟩ := Expander.enter_eq_ok h
    cases hroom
  | succ room ih =>
    intro name walk text last h
    obtain ⟨less, symbol, before, hroom, hsymbol, hpicked, _⟩ := Expander.enter_eq_ok h
    cases hroom
    obtain ⟨rule, hmem, hpositive, next, hrule⟩ := rule_of_expandPicked
      (hobeys _ (requests_subset_of_symbol? hsymbol List.mem_cons_self)) hpicked
    refine .symbol hsymbol hmem hpositive ?_
    refine (derives_of_expand ih name).all (.body rule.segments) ?_ next text before hrule
    intro request hrequest
    exact hobeys _ (requests_subset_of_rule hsymbol hmem hrequest)

theorem run_eq_ok {x : Expansion σ (List Char)} {source : σ} {text : String} :
    (Expander.run x source).result = .ok text ↔
      ∃ last, x.along (Walk.start source) = (.ok text.toList, last) := by
  rw [Expander.run_eq, map_eq_ok]
  constructor
  · rintro ⟨letters, hletters, rfl⟩
    refine ⟨(x.along (Walk.start source)).2, ?_⟩
    rw [String.toList_ofList, ← hletters]
  · rintro ⟨last, h⟩
    exact ⟨text.toList, congrArg Prod.fst h, String.ofList_toList⟩

/-- What an expansion of a symbol gives is derivable, whatever the limits. -/
theorem derives_of_expandSymbol
    (hobeys : ∀ request ∈ e.grammar.requests, e.chance.Obeys request) {name : String} {source : σ}
    {text : String} (h : (e.expandSymbol name source).result = .ok text) :
    Derives e.grammar e.inflector (.symbol name) text.toList := by
  obtain ⟨last, hlast⟩ := run_eq_ok.mp h
  exact givesDerivable_enter hobeys e.limits.maxDepth name _ _ last hlast

end

/-! ## Scripts -/

/-- An answer written down. -/
inductive Draw where
  /-- The item of a number. -/
  | item (n : Nat)
  | number (x : Int64)
  | letter (c : Char)
deriving DecidableEq

/-- The chance that answers by a script, as long as the next answer is an allowed one. -/
def Chance.scripted : Chance (List Draw) where
  pick weights
    | .item n :: script => (if (weights[n]?).any Double.zero.lt then some n else none, script)
    | script => (none, script)
  number low high
    | .number x :: script => (if low ≤ x ∧ x ≤ high then .ok x else .error .exhausted, script)
    | script => (.error .exhausted, script)
  letter low high
    | .letter c :: script => (if low ≤ c ∧ c ≤ high then .ok c else .error .exhausted, script)
    | script => (.error .exhausted, script)

/-- The expander that answers by a script, with no limit on steps. -/
def Expander.scripted (g : Grammar) (inflector : Inflector) (maxDepth : Nat) :
    Expander (List Draw) := ⟨g, .scripted, inflector, ⟨maxDepth, none⟩⟩

theorem scripted_obeys (request : Request) : Chance.scripted.Obeys request := by
  match request with
  | .pick weights =>
    intro source n h
    unfold Chance.scripted at h
    dsimp only at h
    split at h
    · split at h
      · rename_i hany
        cases h
        rwa [Option.any_eq_true] at hany
      · cases h
    · cases h
  | .draw (.number low high) =>
    intro source x h
    unfold Chance.scripted at h
    dsimp only at h
    split at h
    · split at h
      · rename_i hbounds
        cases h
        exact hbounds
      · cases h
    · cases h
  | .draw (.letter low high) =>
    intro source x h
    unfold Chance.scripted at h
    dsimp only at h
    split at h
    · split at h
      · rename_i hbounds
        cases h
        exact hbounds
      · cases h
    · cases h

/-- Along any walk, the expansion uses up the script and gives `a`. -/
def Gives {α : Type} (x : Expansion (List Draw) α) (script : List Draw) (a : α) : Prop :=
  ∀ walk rest, walk.source = script ++ rest →
    ∃ next, x.along walk = (.ok a, next) ∧ next.source = rest

namespace Gives

variable {α β : Type} {x : Expansion (List Draw) α} {f : α → Expansion (List Draw) β}
  {script rest : List Draw} {a : α} {b : β}

theorem pure (a : α) : Gives (Pure.pure a) [] a := by
  intro walk rest h
  exact ⟨walk, rfl, h⟩

theorem bind (hx : Gives x script a) (hf : Gives (f a) rest b) :
    Gives (x >>= f) (script ++ rest) b := by
  intro walk tail h
  rw [List.append_assoc] at h
  obtain ⟨next, hnext, hsource⟩ := hx walk _ h
  rw [along_bind_ok hnext]
  exact hf next tail hsource

/-- An action that draws nothing comes first. -/
theorem after {u : Expansion (List Draw) Unit} {v : Unit → Expansion (List Draw) β}
    (hu : Gives u [] ()) (hv : Gives (v ()) script b) : Gives (u >>= v) script b := hu.bind hv

/-- A result is made of what an expansion gives. -/
theorem map (hx : Gives x script a) (g : α → β) :
    Gives (x >>= fun a => Pure.pure (g a)) script (g a) := by
  have h : Gives (x >>= fun a => Pure.pure (g a)) (script ++ []) (g a) := hx.bind (pure (g a))
  rwa [List.append_nil] at h

end Gives

section

variable {g : Grammar} {inflector : Inflector} {maxDepth : Nat}

theorem gives_step : Gives (Expander.scripted g inflector maxDepth).step [] () := by
  intro walk rest h
  rcases (Expander.scripted g inflector maxDepth).along_step walk with ⟨budget, hbudget, _⟩ | hstep
  · cases hbudget
  · exact ⟨_, hstep, h⟩

theorem gives_pick {owner : String} {rules : List Rule} {n : Nat} {rule : Rule}
    (hrule : rules[n]? = some rule) (hpositive : Double.zero.lt rule.weight = true) :
    Gives ((Expander.scripted g inflector maxDepth).pick owner rules) [.item n] n := by
  intro walk rest h
  rw [Expander.along_pick, h]
  refine ⟨{ walk with source := rest }, ?_, rfl⟩
  simp [Expander.scripted, Chance.scripted, hrule, hpositive]

/-- A draw that the script answers. -/
theorem gives_drawBy {α : Type} {draw : List Draw → Except DrawFault α × List Draw} {answer : Draw}
    {x : α} (hdraw : ∀ script, draw (answer :: script) = (.ok x, script)) :
    Gives (Expander.drawBy draw) [answer] x := by
  intro walk rest h
  rw [Expander.along_drawBy, h]
  refine ⟨{ walk with source := rest }, ?_, rfl⟩
  simp only [List.singleton_append, hdraw]
  rfl

theorem gives_number {low high x : Int64} (hlow : low ≤ x) (hhigh : x ≤ high) :
    Gives ((Expander.scripted g inflector maxDepth).draw (.number low high)) [.number x]
      (spellInt x.toInt) := by
  have hdraw : ∀ script, Chance.scripted.number low high (.number x :: script) =
      (.ok x, script) := by
    intro script
    simp [Chance.scripted, hlow, hhigh]
  exact (gives_drawBy hdraw).map _

theorem gives_letter {low high x : Char} (hlow : low ≤ x) (hhigh : x ≤ high) :
    Gives ((Expander.scripted g inflector maxDepth).draw (.letter low high)) [.letter x] [x] := by
  have hdraw : ∀ script, Chance.scripted.letter low high (.letter x :: script) =
      (.ok x, script) := by
    intro script
    simp [Chance.scripted, hlow, hhigh]
  exact (gives_drawBy hdraw).map _

/-- A rule of positive weight is picked and expanded. -/
theorem gives_picked {enter : String → Expansion (List Draw) (List Char)} {owner : String}
    {rules : List Rule} {rule : Rule} {n : Nat} (hn : rules[n]? = some rule)
    (hpositive : Double.zero.lt rule.weight = true) {script : List Draw} {text : List Char}
    (hrule : Gives ((Phrase.body rule.segments).expand (Expander.scripted g inflector maxDepth)
      enter owner) script text) :
    Gives ((Expander.scripted g inflector maxDepth).expandPicked enter owner rules)
      (.item n :: script) text := by
  refine (gives_pick hn hpositive).bind ?_
  rwa [expandNth_eq, hn, Option.elim_some]

theorem gives_enter {room : Nat} {name : String} {symbol : Symbol}
    (hsymbol : g.symbol? name = some symbol) {script : List Draw} {text : List Char}
    (h : Gives ((Expander.scripted g inflector maxDepth).expandPicked
      ((Expander.scripted g inflector maxDepth).enter room) name symbol.rules) script text) :
    Gives ((Expander.scripted g inflector maxDepth).enter (room + 1) name) script text := by
  intro walk rest hsource
  obtain ⟨next, hnext, hrest⟩ := h (Expander.openedWalk walk) rest hsource
  refine ⟨Expander.closedWalk next, ?_, hrest⟩
  rw [Expander.along_enter_succ _ walk hsymbol, along_bind_ok hnext]
  rfl

/-- A derivable phrase is expanded by some script, given room enough for symbols. -/
theorem exists_script {phrase : Phrase} {text : List Char} (h : Derives g inflector phrase text) :
    ∃ depth script, ∀ maxDepth room, depth ≤ room → ∀ owner,
      Gives (phrase.expand (Expander.scripted g inflector maxDepth)
        ((Expander.scripted g inflector maxDepth).enter room) owner) script text := by
  induction h with
  | literal text =>
    refine ⟨0, [], ?_⟩
    intro maxDepth room _ owner
    rw [expand_literal]
    exact gives_step.after (.pure _)
  | reference modifiers _ ih =>
    obtain ⟨depth, script, ih⟩ := ih
    refine ⟨depth, script, ?_⟩
    intro maxDepth room hroom owner
    rw [expand_reference]
    exact gives_step.after ((ih maxDepth room hroom owner).map _)
  | choice hmem hpositive _ ih =>
    obtain ⟨depth, script, ih⟩ := ih
    obtain ⟨n, hn⟩ := List.getElem?_of_mem hmem
    refine ⟨depth, .item n :: script, ?_⟩
    intro maxDepth room hroom owner
    rw [expand_choice]
    exact gives_step.after (gives_picked hn hpositive (ih maxDepth room hroom owner))
  | symbolTarget _ ih =>
    obtain ⟨depth, script, ih⟩ := ih
    refine ⟨depth, script, ?_⟩
    intro maxDepth room hroom owner
    rw [expand_symbolTarget]
    exact ih maxDepth room hroom owner
  | dereference _ _ ihInner ihSymbol =>
    obtain ⟨depth, script, ihInner⟩ := ihInner
    obtain ⟨depth', script', ihSymbol⟩ := ihSymbol
    refine ⟨max depth depth', script ++ script', ?_⟩
    intro maxDepth room hroom owner
    rw [expand_dereference]
    exact (ihInner maxDepth room (by omega) owner).bind (ihSymbol maxDepth room (by omega) owner)
  | quoted text =>
    refine ⟨0, [], ?_⟩
    intro maxDepth room _ owner
    rw [expand_quoted]
    exact .pure _
  | pattern _ ih =>
    obtain ⟨depth, script, ih⟩ := ih
    refine ⟨depth, script, ?_⟩
    intro maxDepth room hroom owner
    rw [expand_pattern]
    exact ih maxDepth room hroom owner
  | @number low high x hlow hhigh =>
    refine ⟨0, [.number x], ?_⟩
    intro maxDepth room _ owner
    rw [expand_range]
    exact gives_number hlow hhigh
  | @letter low high x hlow hhigh =>
    refine ⟨0, [.letter x], ?_⟩
    intro maxDepth room _ owner
    rw [expand_range]
    exact gives_letter hlow hhigh
  | nil =>
    refine ⟨0, [], ?_⟩
    intro maxDepth room _ owner
    rw [expand_nil]
    exact .pure _
  | cons _ _ ihSegment ihRow =>
    obtain ⟨depth, script, ihSegment⟩ := ihSegment
    obtain ⟨depth', script', ihRow⟩ := ihRow
    refine ⟨max depth depth', script ++ script', ?_⟩
    intro maxDepth room hroom owner
    rw [expand_cons]
    exact (ihSegment maxDepth room (by omega) owner).bind
      ((ihRow maxDepth room (by omega) owner).map _)
  | body _ ih =>
    obtain ⟨depth, script, ih⟩ := ih
    refine ⟨depth, script, ?_⟩
    intro maxDepth room hroom owner
    rw [expand_body]
    exact (ih maxDepth room hroom owner).map _
  | @symbol name _ _ _ hsymbol hmem hpositive _ ih =>
    obtain ⟨depth, script, ih⟩ := ih
    obtain ⟨n, hn⟩ := List.getElem?_of_mem hmem
    refine ⟨depth + 1, .item n :: script, ?_⟩
    intro maxDepth room hroom owner
    obtain ⟨room, rfl⟩ : ∃ r, room = r + 1 := ⟨room - 1, by omega⟩
    exact gives_enter hsymbol (gives_picked hn hpositive (ih maxDepth room (by omega) name))

end

/-- The texts that a symbol derives are those that some run of draws gives. -/
theorem derives_iff_scripted {g : Grammar} {inflector : Inflector} {name text : String} :
    Derives g inflector (.symbol name) text.toList ↔ ∃ maxDepth script,
      ((Expander.scripted g inflector maxDepth).expandSymbol name script).result = .ok text := by
  constructor
  · intro h
    obtain ⟨depth, script, hgives⟩ := exists_script h
    refine ⟨depth, script, run_eq_ok.mpr ?_⟩
    obtain ⟨last, hlast, _⟩ := hgives depth depth (Nat.le_refl _) name (Walk.start script) []
      (List.append_nil script).symm
    exact ⟨last, hlast⟩
  · rintro ⟨maxDepth, script, h⟩
    exact derives_of_expandSymbol (fun request _ => scripted_obeys request) h

/-! ## The law -/

/-- Random words answer every request as it may be answered. -/
theorem ofWords_obeys {σ : Type} [WordSource σ] (request : Request) :
    (Chance.ofWords : Chance σ).Obeys request := by
  match request with
  | .pick weights => exact fun source n h => positive_of_pickWeighted h
  | .draw (.number low high) => exact fun source x h => between_of_drawNumber h
  | .draw (.letter low high) => exact fun source x h => between_of_drawLetter h

/-- Expansion computes derivations. The texts that a symbol derives are those that some run
gives, with some limit on open symbols and none on steps; and each text that is given by random
words is one of them, whatever the limits. -/
theorem expansion_computes_derivations (g : Grammar) (inflector : Inflector) (name text : String) :
    (Derives g inflector (.symbol name) text.toList ↔ ∃ maxDepth script,
      ((Expander.scripted g inflector maxDepth).expandSymbol name script).result = .ok text) ∧
    ∀ (σ : Type) [WordSource σ] (limits : Limits) (source : σ),
      (Expander.expandSymbol ⟨g, .ofWords, inflector, limits⟩ name source).result = .ok text →
        Derives g inflector (.symbol name) text.toList := by
  refine ⟨derives_iff_scripted, ?_⟩
  intro σ _ limits source h
  exact derives_of_expandSymbol (fun request _ => ofWords_obeys request) h

/-- A grammar with a computed name, a weight of zero and a range. -/
def pets : Grammar :=
  let pet : Segment := .choice [⟨[.literal "pet "], .one⟩, ⟨[.literal "no"], .zero⟩]
  ⟨[⟨"start", [⟨[.literal "a ", .reference (.dereference pet) [.plural]], .one⟩], 1⟩,
    ⟨"pet", [⟨[.literal "cat"], .one⟩, ⟨[.reference (.range (.letter 'a' 'c')) []], .one⟩], 2⟩]⟩

/-- The law at a grammar of pets and at words that pick a letter. -/
theorem text_about_pets_is_derivable : ∃ text : String,
    (Expander.expandSymbol ⟨pets, .ofWords, .english, {}⟩ "start"
      (⟨[0, 0, 0x8000000000000000, 5], 0⟩ : WordList)).result = .ok text ∧
    Derives pets .english (.symbol "start") text.toList := by
  have hok : (Expander.expandSymbol ⟨pets, .ofWords, .english, {}⟩ "start"
      (⟨[0, 0, 0x8000000000000000, 5], 0⟩ : WordList)).result.isOk = true := by decide +kernel
  obtain ⟨text, htext⟩ := exists_of_isOk hok
  exact ⟨text, htext, (expansion_computes_derivations pets .english "start" text).2 _ _ _ htext⟩

end TextGrammar
