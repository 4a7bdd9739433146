-- Expansion by positions, and the law that no step is missing. A symbol is looked up by its
-- position, and so is the rule that is picked; the count of open symbols goes down by one at each
-- closing, and a range is drawn from only when it is in order. From the source to the text no step
-- is missing. Checking a grammar and writing it down again take no such step.
import TextGrammar.Proofs.SourcesByPosition
import TextGrammar.Proofs.InflectionByPosition
import TextGrammar.Proofs.Depth
import TextGrammar.Proofs.Blame
import TextGrammar.Proofs.CompiledBlocks

namespace TextGrammar

namespace ByPosition

/-! ## Expansions made of steps -/

/-- A part of an expansion of which steps may be missing. -/
abbrev Steps (σ α : Type) : Type := ExceptT ExpansionError (StateT (Walk σ) Option) α

namespace Steps

variable {σ α β : Type}

/-- What an expansion gives, and the walk as it leaves it. -/
def along (x : Steps σ α) (walk : Walk σ) : Option (Except ExpansionError α × Walk σ) :=
  x.run.run walk

/-- A step. -/
def step (x : Option α) : Steps σ α := fun walk => x.map fun a => (.ok a, walk)

/-- An expansion of which no step is missing. -/
def whole (x : Expansion σ α) : Steps σ α := fun walk => some (x.along walk)

/-- On the walk no step of the expansion is missing, and it does what the other does. -/
def AgreesAt (walk : Walk σ) (x : Steps σ α) (y : Expansion σ α) : Prop :=
  x.along walk = some (y.along walk)

/-- On every walk no step of the expansion is missing, and it does what the other does. -/
def Agrees (x : Steps σ α) (y : Expansion σ α) : Prop :=
  ∀ walk, AgreesAt walk x y

theorem agrees_whole (x : Expansion σ α) : Agrees (whole x) x := fun _ => rfl

theorem agrees_pure (a : α) : Agrees (pure a : Steps σ α) (pure a) := fun _ => rfl

theorem agrees_throw (error : ExpansionError) :
    Agrees (throw error : Steps σ α) (throw error) := fun _ => rfl

theorem agrees_step {x : Option α} {a : α} (h : x = some a) :
    Agrees (step x : Steps σ α) (pure a) := by
  subst h
  exact fun _ => rfl

/-- What comes second needs to agree only on the walks and for the values that come first. -/
theorem AgreesAt.bind {walk : Walk σ} {x : Steps σ α} {y : Expansion σ α}
    {f : α → Steps σ β} {g : α → Expansion σ β} (hx : AgreesAt walk x y)
    (hf : ∀ a next, y.along walk = (.ok a, next) → AgreesAt next (f a) (g a)) :
    AgreesAt walk (x >>= f) (y >>= g) := by
  have hbind : (x >>= f).along walk = (x.along walk).bind fun (result, next) =>
      match result with
      | .ok a => (f a).along next
      | .error error => some (.error error, next) := by
    change (x walk).bind (fun s => (ExceptT.bindCont f s.1).run s.2) = _
    refine congrArg (Option.bind (x walk)) (funext fun ⟨result, next⟩ => ?_)
    cases result <;> rfl
  unfold AgreesAt at hx
  rw [AgreesAt, hbind, hx, Option.bind_some, along_bind]
  cases hresult : y.along walk with
  | mk result next =>
    cases result with
    | ok a => exact hf a next hresult
    | error error => rfl

theorem Agrees.bind {x : Steps σ α} {y : Expansion σ α} {f : α → Steps σ β}
    {g : α → Expansion σ β} (hx : Agrees x y) (hf : ∀ a, Agrees (f a) (g a)) :
    Agrees (x >>= f) (y >>= g) :=
  fun walk => (hx walk).bind fun a next _ => hf a next

end Steps

open Steps

/-! ## Phrases -/

/-- The text that a modifier makes of a text. -/
def inflect (inflector : Inflector) (text : List Char) : Modifier → Option (List Char)
  | .article => do
    let article ← inflector.article text
    some (article.letters ++ ' ' :: text)
  | .plural => inflector.plural text
  | .ordinal => inflector.ordinal text
  | .capitalize => some (capitalize text)
  | .lower => some (Unicode.lowerText text)
  | .upper => some (Unicode.upperText text)
  | .title => some (titleCase true text)

/-- The range is in order. -/
def inOrder? : DrawRange → Option Unit
  | .number low high => guard (low ≤ high)
  | .letter low high => guard (low ≤ high)

section

variable {σ : Type} (e : TextGrammar.Expander σ) (inflector : Inflector)
  (enter : String → Steps σ (List Char)) (owner : String)

/-- Draws from a range, which has to be in order. -/
def draw (range : DrawRange) : Steps σ (List Char) := do
  step (inOrder? range)
  whole (e.draw range)

mutual

/-- Expands a segment of a rule of the symbol `owner`, as the expander does that uses the
inflector; `enter` expands the symbols that it names. -/
def expandSegment : Segment → Steps σ (List Char)
  | .literal text => do
    whole e.step
    pure text.toList
  | .reference target modifiers => do
    whole e.step
    let text ← expandTarget target
    step (modifiers.foldlM (inflect inflector) text)
  | .choice branches => do
    whole e.step
    let picked ← whole (e.pick owner branches)
    expandNth picked branches

/-- Expands a target. -/
def expandTarget : Target → Steps σ (List Char)
  | .symbol name => enter name
  | .dereference inner => do
    let name ← expandSegment inner
    enter (String.ofList (trim name))
  | .quoted text => pure text.toList
  | .pattern segments => do
    let text ← expandRow segments
    step (resolve inflector text)
  | .range range => draw e range

/-- Expands a rule: its segments in a row, with the inline markers of the whole resolved. -/
def expandBody : Rule → Steps σ (List Char)
  | ⟨segments, _⟩ => do
    let text ← expandRow segments
    step (resolve inflector text)

/-- Expands segments in a row. -/
def expandRow : List Segment → Steps σ (List Char)
  | [] => pure []
  | segment :: segments => do
    let first ← expandSegment segment
    let rest ← expandRow segments
    pure (first ++ rest)

/-- Expands the rule at a position, which has to be there. -/
def expandNth : Nat → List Rule → Steps σ (List Char)
  | _, [] => step none
  | 0, rule :: _ => expandBody rule
  | n + 1, _ :: rules => expandNth n rules

end

/-- Expands a phrase of a rule of the symbol `owner`. -/
def expand : Phrase → Steps σ (List Char)
  | .segment s => expandSegment e inflector enter owner s
  | .target t => expandTarget e inflector enter owner t
  | .row ss => expandRow e inflector enter owner ss
  | .body ss => do
    let text ← expandRow e inflector enter owner ss
    step (resolve inflector text)
  | .symbol name => enter name

/-- Expands a rule that is picked among some, and looked up by its position. -/
def expandPicked (rules : List Rule) : Steps σ (List Char) := do
  let picked ← whole (e.pick owner rules)
  expandNth e inflector enter owner picked rules

theorem expandNth_eq (n : Nat) (rules : List Rule) :
    expandNth e inflector enter owner n rules =
      (rules[n]?).elim (step none)
        fun rule => expand e inflector enter owner (.body rule.segments) := by
  induction rules generalizing n with
  | nil => rw [expandNth, List.getElem?_nil, Option.elim_none]
  | cons rule rules ih =>
    cases n with
    | zero =>
      obtain ⟨segments, weight⟩ := rule
      rw [expandNth, expandBody, List.getElem?_cons_zero, Option.elim_some]
      rfl
    | succ n => rw [expandNth, ih, List.getElem?_cons_succ]

end

theorem inflect_eq {inflector : Inflector} {other : TextGrammar.Inflector}
    (h : inflector.Follows other) (text : List Char) (modifier : Modifier) :
    inflect inflector text modifier = some (other.modify text modifier) := by
  cases modifier with
  | article =>
    rw [inflect, h.article]
    rfl
  | plural => exact h.plural text
  | ordinal => exact h.ordinal text
  | _ => rfl

theorem modifiers_eq {inflector : Inflector} {other : TextGrammar.Inflector}
    (h : inflector.Follows other) (modifiers : List Modifier) (text : List Char) :
    modifiers.foldlM (inflect inflector) text = some (modifiers.foldl other.modify text) := by
  induction modifiers generalizing text with
  | nil => rfl
  | cons modifier modifiers ih =>
    rw [List.foldlM_cons, inflect_eq h]
    exact ih _

theorem inOrder?_eq {range : DrawRange} (h : range.Proper) : inOrder? range = some () := by
  cases range with
  | number low high => exact if_pos h
  | letter low high => exact if_pos h.1

section

variable {σ : Type} {e : TextGrammar.Expander σ} {inflector : Inflector}
  {enter : String → Steps σ (List Char)} {entered : String → Expansion σ (List Char)}
  {owner : String}

theorem agrees_draw {range : DrawRange} (h : range.Proper) :
    Agrees (draw e range) (e.draw range) := by
  rw [draw, inOrder?_eq h]
  exact fun _ => rfl

/-- What is picked is there. -/
theorem agrees_expandPicked (hchance : e.chance.ByWeight) {rules : List Rule}
    (hrules : ∀ rule ∈ rules, Agrees (expand e inflector enter owner (.body rule.segments))
      ((Phrase.body rule.segments).expand e entered owner)) :
    Agrees (expandPicked e inflector enter owner rules) (e.expandPicked entered owner rules) := by
  intro walk
  refine (agrees_whole _ walk).bind fun n next hpick => ?_
  rw [e.along_pick] at hpick
  dsimp only at hpick
  cases hdrawn : (e.chance.pick (rules.map (·.weight)) walk.source).1 with
  | none =>
    rw [hdrawn] at hpick
    cases hpick
  | some m =>
    obtain ⟨rule, hrule⟩ := hchance.inRange rules _ _ hdrawn
    rw [hdrawn] at hpick
    cases hpick
    rw [expandNth_eq, TextGrammar.expandNth_eq, hrule]
    exact hrules rule (List.mem_of_getElem? hrule) _

/-- One level of symbols: phrases agree if the symbols in them do. -/
theorem agrees_expand (hinflector : inflector.Follows e.inflector) (hchance : e.chance.ByWeight)
    (henter : ∀ name, Agrees (enter name) (entered name)) (owner : String) :
    Phrase.Inductive fun phrase => phrase.All Phrase.Proper →
      Agrees (expand e inflector enter owner phrase) (phrase.expand e entered owner) where
  literal text := by
    intro _
    rw [expand, expandSegment, expand_literal]
    exact (agrees_whole _).bind fun _ => agrees_pure _
  reference target modifiers ih := by
    intro hall
    rw [expand, expandSegment, expand_reference]
    exact (agrees_whole _).bind fun _ => (ih (Phrase.all_reference.mp hall).2).bind fun text =>
      agrees_step (modifiers_eq hinflector modifiers text)
  choice branches ih := by
    intro hall
    rw [expand, expandSegment, expand_choice]
    exact (agrees_whole _).bind fun _ => agrees_expandPicked hchance fun rule hmem =>
      ih rule hmem ((Phrase.all_choice.mp hall).2 rule hmem)
  symbolTarget name ih := by
    intro _
    rw [expand, expandTarget, expand_symbolTarget]
    exact henter name
  dereference inner ih := by
    intro hall
    rw [expand, expandTarget, expand_dereference]
    exact (ih (Phrase.all_dereference.mp hall).2).bind fun _ => henter _
  quoted text := by
    intro _
    rw [expand, expandTarget, expand_quoted]
    exact agrees_pure _
  pattern segments ih := by
    intro hall
    rw [expand, expandTarget, expand_pattern]
    exact ih (Phrase.all_pattern.mp hall).2
  range range := by
    intro hall
    rw [expand, expandTarget, expand_range]
    exact agrees_draw (Phrase.all_range.mp hall)
  nil := by
    intro _
    rw [expand, expandRow, expand_nil]
    exact agrees_pure _
  cons segment segments ihSegment ihRow := by
    intro hall
    obtain ⟨hsegment, hrow⟩ := Phrase.all_cons.mp hall
    rw [expand, expandRow, expand_cons]
    exact (ihSegment hsegment).bind fun _ => (ihRow hrow).bind fun _ => agrees_pure _
  body segments ih := by
    intro hall
    rw [expand, expand_body]
    exact (ih hall).bind fun text => agrees_step (resolve_eq hinflector text)
  symbol name := fun _ => henter name

end

/-! ## Symbols -/

section

variable {σ : Type} (e : TextGrammar.Expander σ) (inflector : Inflector)

/-- The symbol of a name, looked up by the position of the first that has it. -/
def declared (name : String) : Steps σ Symbol :=
  match e.grammar.symbols.findIdx? (·.name == name) with
  | some i => step e.grammar.symbols[i]?
  | none => throw (.unknownSymbol name)

/-- One less than the count of open symbols. -/
def depthBelow : Steps σ Nat := do
  let walk ← whole get
  step (minus? walk.depth 1)

/-- Opens a symbol. A note of it is indented by the symbols around it. -/
def openSymbol : Steps σ Unit := do
  whole Expander.openSymbol
  let _ ← depthBelow
  pure ()

/-- Closes the symbol opened last. -/
def closeSymbol : Steps σ Unit := do
  let depth ← depthBelow
  whole (modify fun walk => { walk with depth })

/-- Expands the symbol of a name when `room` more symbols may be open. -/
def enter : (room : Nat) → String → Steps σ (List Char)
  | 0, name => do
    let _ ← declared e name
    let walk ← whole get
    throw (.recursionLimit name (walk.depth + 1))
  | room + 1, name => do
    let symbol ← declared e name
    openSymbol
    let text ← expandPicked e inflector (enter room) name symbol.rules
    closeSymbol
    pure text

end

section

variable {σ : Type} {e : TextGrammar.Expander σ} {inflector : Inflector}

/-- The first with a property stands at the first position with it. -/
theorem getElem?_findIdx? {α : Type} (p : α → Bool) (xs : List α) :
    (xs.findIdx? p).elim (xs.find? p = none) fun i => xs[i]? = xs.find? p := by
  induction xs with
  | nil => rfl
  | cons x xs ih =>
    rw [List.findIdx?_cons, List.find?_cons]
    cases p x with
    | true => rfl
    | false =>
      cases hindex : xs.findIdx? p with
      | none =>
        rw [hindex] at ih
        exact ih
      | some i =>
        rw [hindex] at ih
        exact ih

theorem agrees_declared (name : String) : Agrees (declared e name) (e.declared name) := by
  have hlookup := getElem?_findIdx? (·.name == name) e.grammar.symbols
  rw [declared, Expander.declared, Grammar.symbol?]
  cases hindex : e.grammar.symbols.findIdx? (·.name == name) with
  | none =>
    rw [hindex, Option.elim_none] at hlookup
    rw [hlookup]
    exact agrees_throw _
  | some i =>
    rw [hindex, Option.elim_some] at hlookup
    obtain ⟨hi, _⟩ := List.findIdx?_eq_some_iff_getElem.mp hindex
    have hfound := List.getElem?_eq_getElem hi
    rw [← hlookup, hfound]
    exact agrees_step hfound

theorem declared_eq_ok {name : String} {symbol : Symbol} {walk next : Walk σ}
    (h : (e.declared name).along walk = (.ok symbol, next)) : symbol ∈ e.grammar.symbols := by
  rw [Expander.declared] at h
  cases hsymbol : e.grammar.symbol? name with
  | none =>
    rw [hsymbol] at h
    cases h
  | some found =>
    rw [hsymbol] at h
    cases h
    exact List.mem_of_find?_eq_some hsymbol

theorem agreesAt_depthBelow {walk : Walk σ} (h : 0 < walk.depth) :
    AgreesAt walk depthBelow (pure (walk.depth - 1)) := by
  have hbelow : (depthBelow : Steps σ Nat).along walk =
      (step (minus? walk.depth 1)).along walk := rfl
  rw [AgreesAt, hbelow, minus?_eq h]
  rfl

theorem agrees_openSymbol : Agrees (openSymbol : Steps σ Unit) Expander.openSymbol := by
  intro walk
  have hopen : AgreesAt walk openSymbol
      (Expander.openSymbol >>= fun _ => pure walk.depth >>= fun _ => pure ()) :=
    (agrees_whole _ walk).bind fun _ next hnext => by
      cases hnext
      exact (agreesAt_depthBelow (Nat.succ_pos _)).bind fun _ last _ => agrees_pure () last
  exact hopen

/-- An open symbol can be closed. -/
theorem agreesAt_closeSymbol {walk : Walk σ} (h : 0 < walk.depth) :
    AgreesAt walk closeSymbol Expander.closeSymbol := by
  have hclose : AgreesAt walk closeSymbol
      (pure (walk.depth - 1) >>= fun depth => modify fun walk => { walk with depth }) :=
    (agreesAt_depthBelow h).bind fun _ next _ => agrees_whole _ next
  exact hclose

/-- A symbol that is closed was opened before, and nothing between has closed it. -/
theorem agrees_enter (hinflector : inflector.Follows e.inflector) (hchance : e.chance.ByWeight)
    (hproper : ∀ part ∈ e.grammar.parts, part.Proper) (room : Nat) :
    ∀ name, Agrees (enter e inflector room name) (e.enter room name) := by
  induction room with
  | zero =>
    intro name
    exact (agrees_declared name).bind fun _ => (agrees_whole _).bind fun _ => agrees_throw _
  | succ room ih =>
    intro name walk
    have henter : e.enter (room + 1) name = e.declared name >>= fun symbol =>
        Expander.openSymbol >>= fun _ => e.expandPicked (e.enter room) name symbol.rules >>=
          fun text => Expander.closeSymbol >>= fun _ => pure text := by
      rw [Expander.enter]
      simp only [Expander.expandPicked, bind_assoc]
    rw [enter, henter]
    refine (agrees_declared name walk).bind fun symbol next hsymbol => ?_
    refine (agrees_openSymbol next).bind fun _ opened hopened => ?_
    have hbody : ∀ rule ∈ symbol.rules, Agrees
        (expand e inflector (enter e inflector room) name (.body rule.segments))
        ((Phrase.body rule.segments).expand e (e.enter room) name) := fun rule hrule =>
      (agrees_expand hinflector hchance ih name).all _
        (Phrase.all_of_rule hproper (declared_eq_ok hsymbol) hrule)
    refine (agrees_expandPicked hchance hbody opened).bind fun text before hpicked => ?_
    -- As many symbols are open as behind the opening, which is one at least.
    have hkeeps : KeepsDepth (e.expandPicked (e.enter room) name symbol.rules) :=
      (keepsDepth_compositional e).expandPicked fun rule _ =>
        keepsDepth_phrase e room name (.body rule.segments)
    have hdepth : 0 < before.depth := by
      rw [hkeeps _ _ _ hpicked]
      cases hopened
      exact Nat.succ_pos _
    exact (agreesAt_closeSymbol hdepth).bind fun _ last _ => agrees_pure text last

end

/-! ## Whole expansions -/

theorem proper_of_canonical {levels : Nat} {rule : Rule} (h : rule.Canonical levels) :
    (Phrase.body rule.segments).All Phrase.Proper := by
  cases h with
  | mk _ hsegments _ _ => exact Phrase.all_proper_of_canonical.all (.body _) levels hsegments

section

variable {σ : Type} (e : TextGrammar.Expander σ) (inflector : Inflector)

/-- Runs an expansion from its start. -/
def run (x : Steps σ (List Char)) (source : σ) : Option (Expander.Outcome σ) := do
  let (result, walk) ← x.along (Walk.start source)
  some ⟨result.map String.ofList, walk⟩

/-- Expands the symbol of a name. -/
def expandSymbol (name : String) (source : σ) : Option (Expander.Outcome σ) :=
  run (enter e inflector e.limits.maxDepth name) source

/-- Expands one rule on behalf of a symbol, whatever its weight. -/
def expandRule (owner : String) (rule : Rule) (source : σ) : Option (Expander.Outcome σ) :=
  run (expand e inflector (enter e inflector e.limits.maxDepth) owner (.body rule.segments)) source

/-- Expands an input: the symbol of that name, or else a pattern. -/
def expandInput (input : String) (source : σ) : Option (Expander.Outcome σ) :=
  if e.grammar.contains input then expandSymbol e inflector input source
  else do
    match ← (readRule 1 input.toList).run with
    | .ok rule => expandRule e inflector Expander.patternOwner rule source
    | .error fault => some ⟨.error (.pattern (fault.onLine 1)), Walk.start source⟩

/-- Expands each of some rules from where the one before left the source. -/
def tryRules : List (Symbol × Rule) → σ → Option (List Expander.Trial × σ)
  | [], source => some ([], source)
  | (symbol, rule) :: rules, source => do
    let outcome ← expandRule e inflector symbol.name rule source
    let (trials, last) ← tryRules rules outcome.walk.source
    some (⟨symbol, rule, outcome.result⟩ :: trials, last)

/-- Expands every rule of every symbol once; only the first `limit` of them when a limit is
given. -/
def tryAll (limit : Option Nat) (source : σ) : Option (List Expander.Trial × σ) :=
  tryRules e inflector (limit.elim e.grammar.rules e.grammar.rules.take) source

end

section

variable {σ : Type} {e : TextGrammar.Expander σ} {inflector : Inflector}

theorem run_eq {x : Steps σ (List Char)} {y : Expansion σ (List Char)} (h : Agrees x y)
    (source : σ) : run x source = some (Expander.run y source) := by
  rw [run, h (Walk.start source), Expander.run_eq]
  rfl

variable (hinflector : inflector.Follows e.inflector) (hchance : e.chance.ByWeight)
  (hproper : ∀ part ∈ e.grammar.parts, part.Proper)

include hinflector hchance hproper

theorem expandSymbol_eq (name : String) (source : σ) :
    expandSymbol e inflector name source = some (e.expandSymbol name source) :=
  run_eq (agrees_enter hinflector hchance hproper _ name) source

theorem expandRule_eq (owner : String) {rule : Rule}
    (hrule : (Phrase.body rule.segments).All Phrase.Proper) (source : σ) :
    expandRule e inflector owner rule source = some (e.expandRule owner rule source) := by
  have henter := agrees_enter hinflector hchance hproper e.limits.maxDepth
  have hbody := (agrees_expand hinflector hchance henter owner).all (.body rule.segments) hrule
  rw [expandRule, run_eq hbody, TextGrammar.expandRule_eq]
  rfl

theorem expandInput_eq (input : String) (source : σ) :
    expandInput e inflector input source = some (e.expand input source) := by
  rw [expandInput, Expander.expand]
  split
  · exact expandSymbol_eq hinflector hchance hproper input source
  · rw [readRule_eq, Rule.ofPattern]
    cases hread : Rule.read 1 input.toList with
    | error fault => rfl
    | ok rule =>
      have hrule := proper_of_canonical (canonical_of_read hread)
      exact expandRule_eq hinflector hchance hproper _ hrule source

theorem tryRules_eq {rules : List (Symbol × Rule)}
    (hrules : ∀ entry ∈ rules, (Phrase.body entry.2.segments).All Phrase.Proper) (source : σ) :
    tryRules e inflector rules source = some (e.tryRules rules source) := by
  induction rules generalizing source with
  | nil => rfl
  | cons entry rules ih =>
    obtain ⟨symbol, rule⟩ := entry
    obtain ⟨hrule, hrest⟩ := List.forall_mem_cons.mp hrules
    rw [tryRules, expandRule_eq hinflector hchance hproper _ hrule]
    dsimp only [Option.bind_eq_bind, Option.bind_some]
    rw [ih hrest]
    rfl

theorem tryAll_eq (limit : Option Nat) (source : σ) :
    tryAll e inflector limit source = some (e.tryAll limit source) := by
  have hrules : ∀ entry ∈ e.grammar.rules, (Phrase.body entry.2.segments).All Phrase.Proper := by
    intro entry hentry
    obtain ⟨symbol, hsymbol, hentry⟩ := List.mem_flatMap.mp hentry
    obtain ⟨rule, hrule, rfl⟩ := List.mem_map.mp hentry
    exact Phrase.all_of_rule hproper hsymbol hrule
  refine tryRules_eq hinflector hchance hproper (fun entry hentry => hrules entry ?_) source
  cases limit with
  | none => exact hentry
  | some limit => exact List.mem_of_mem_take hentry

end

end ByPosition

/-! ## The law -/

/-- What validation accepts is compiled to the same grammar. -/
theorem compile_of_validate {source : String} {g : Grammar}
    (h : Grammar.validate source = .ok g) : Grammar.compile source = .ok g := by
  rw [Grammar.validate_eq] at h
  rw [Grammar.compile_eq]
  cases hdefects : (outline source).defects with
  | nil =>
    rw [hdefects] at h
    cases h
    rfl
  | cons error errors =>
    rw [hdefects] at h
    cases h

/-- No step is missing on the way from a source to a text. Both ways of compiling any source take
all their steps, and give what they give by its outline. With a grammar that is compiled in either
way, so do the expansion of any symbol, that of any input, be it a name or a pattern, and the trial
of all rules, whatever the limits and the words drawn are, and with every inflector that takes all
its own steps, as that of each kind does for any phrase. The check of a grammar and its text are
made without looking anything up by position, cutting, or counting down. -/
theorem no_step_is_missing (source : String) :
    ByPosition.compile source = some (Grammar.compile source) ∧
    ByPosition.validate source = some (Grammar.validate source) ∧
    (∀ kind, (ByPosition.inflector kind).Follows kind.inflector) ∧
    ∀ g, Grammar.compile source = .ok g ∨ Grammar.validate source = .ok g →
      ∀ (inflector : ByPosition.Inflector) (other : Inflector), inflector.Follows other →
      ∀ (limits : Limits) (σ : Type) [WordSource σ] (words : σ),
        let e : Expander σ := .byWords g other limits
        (∀ name, ByPosition.expandSymbol e inflector name words =
          some (e.expandSymbol name words)) ∧
        (∀ input, ByPosition.expandInput e inflector input words = some (e.expand input words)) ∧
        ∀ limit, ByPosition.tryAll e inflector limit words = some (e.tryAll limit words) := by
  refine ⟨ByPosition.compile_eq source, ByPosition.validate_eq source,
    ByPosition.inflector_follows, ?_⟩
  intro g hcompiled inflector other hfollows limits σ _ words e
  have hcompile : Grammar.compile source = .ok g := hcompiled.elim id compile_of_validate
  have hproper : ∀ part ∈ e.grammar.parts, part.Proper := proper_of_compile hcompile
  have hchance : e.chance.ByWeight := byWeight_ofWords
  exact ⟨fun name => ByPosition.expandSymbol_eq hfollows hchance hproper name words,
    fun input => ByPosition.expandInput_eq hfollows hchance hproper input words,
    fun limit => ByPosition.tryAll_eq hfollows hchance hproper limit words⟩

/-- A feast with letters of two bytes, a comment, markers, a range and a choice. -/
def feastSource : String :=
  "feast\n  a(n) elf and [guest.a] ate [2-4] Äpfel(s), 1 Éclair(s) # all\n" ++
    "guest\n  [[\"imp\"]|ögre^2]^.5\n"

/-- The law at the feast, which takes all its steps to its text. -/
theorem feast_misses_no_step : ∃ g outcome, ByPosition.compile feastSource = some (.ok g) ∧
    ByPosition.expandSymbol (.byWords g .english {}) (ByPosition.inflector .full) "feast"
      (⟨[0, 0, 0xF000000000000000, 0x8000000000000001], 0⟩ : WordList) = some outcome ∧
    outcome.result = .ok "an elf and a ögre ate 3 Äpfels, 1 Éclair" := by
  have hcheck : (match Grammar.compile feastSource with
      | .ok g => decide (((Expander.byWords g .english {}).expandSymbol "feast"
          (⟨[0, 0, 0xF000000000000000, 0x8000000000000001], 0⟩ : WordList)).result =
            .ok "an elf and a ögre ate 3 Äpfels, 1 Éclair")
      | .error _ => false) = true := by decide +kernel
  obtain ⟨hcompile, _, hkinds, hexpand⟩ := no_step_is_missing feastSource
  cases hsource : Grammar.compile feastSource with
  | error error =>
    rw [hsource] at hcheck
    cases hcheck
  | ok g =>
    rw [hsource] at hcheck hcompile
    have hsteps := hexpand g (.inl hsource) _ _ (hkinds .full) {} WordList
      ⟨[0, 0, 0xF000000000000000, 0x8000000000000001], 0⟩
    exact ⟨g, _, hcompile, hsteps.1 "feast", of_decide_eq_true hcheck⟩

end TextGrammar
