-- The law of named choices. A choice in brackets may be given a name: with a symbol of its own
-- for its branches and a reference in its place, whatever gave a text gives the same text, drawn
-- from the same words in as many steps. Only the symbol has to be opened, so twice as many may
-- have to be open at once.
import TextGrammar.Proofs.OpenSymbols
import TextGrammar.Proofs.Parts
import TextGrammar.Proofs.SideBySide

namespace TextGrammar

variable {σ α β : Type}

/-! ## Naming a choice -/

/-- The other phrase is the phrase with one occurrence of the choice between `branches`, at any
depth, replaced by a reference to the symbol `f`. -/
inductive Phrase.Names (f : String) (branches : List Rule) : Phrase → Phrase → Prop
  | here : Names f branches (.segment (.choice branches)) (.segment (.reference (.symbol f) []))
  | reference {target other : Target} {modifiers : List Modifier}
      (inTarget : Names f branches (.target target) (.target other)) :
      Names f branches (.segment (.reference target modifiers))
        (.segment (.reference other modifiers))
  | choice {before after : List Rule} {rule : Rule} {segments : List Segment}
      (inBranch : Names f branches (.body rule.segments) (.body segments)) :
      Names f branches (.segment (.choice (before ++ rule :: after)))
        (.segment (.choice (before ++ ⟨segments, rule.weight⟩ :: after)))
  | dereference {inner other : Segment}
      (inInner : Names f branches (.segment inner) (.segment other)) :
      Names f branches (.target (.dereference inner)) (.target (.dereference other))
  | pattern {segments others : List Segment}
      (inBody : Names f branches (.body segments) (.body others)) :
      Names f branches (.target (.pattern segments)) (.target (.pattern others))
  | first {segment other : Segment} {segments : List Segment}
      (inFirst : Names f branches (.segment segment) (.segment other)) :
      Names f branches (.row (segment :: segments)) (.row (other :: segments))
  | rest {segment : Segment} {segments others : List Segment}
      (inRest : Names f branches (.row segments) (.row others)) :
      Names f branches (.row (segment :: segments)) (.row (segment :: others))
  | body {segments others : List Segment}
      (inRow : Names f branches (.row segments) (.row others)) :
      Names f branches (.body segments) (.body others)

/-- The rule as it is, or with one occurrence of the choice named. -/
inductive Rule.Names (f : String) (branches : List Rule) (rule : Rule) : Rule → Prop
  | same : Names f branches rule rule
  | once {segments : List Segment}
      (inBody : Phrase.Names f branches (.body rule.segments) (.body segments)) :
      Names f branches rule ⟨segments, rule.weight⟩

/-- The symbol with its rules as they are, or with an occurrence of the choice named. -/
structure Symbol.Names (f : String) (branches : List Rule) (symbol other : Symbol) : Prop where
  sameName : other.name = symbol.name
  rules : List.Forall₂ (Rule.Names f branches) symbol.rules other.rules

/-- The grammar with occurrences of the choice named, and the symbol for its branches at the
end. -/
def Grammar.Names (f : String) (branches : List Rule) (g other : Grammar) : Prop :=
  ∃ symbols line, other.symbols = symbols ++ [⟨f, branches, line⟩] ∧
    List.Forall₂ (Symbol.Names f branches) g.symbols symbols

/-- The same symbol to start from; or the same rule, or it with an occurrence of the choice
named. -/
inductive Start.Names (f : String) (branches : List Rule) : Start → Start → Prop
  | symbol (name : String) : Names f branches (.symbol name) (.symbol name)
  | rule (owner : String) {rule other : Rule} (names : rule.Names f branches other) :
    Names f branches (.rule owner rule) (.rule owner other)

section

variable {f : String} {branches : List Rule}

namespace Phrase.Names

theorem exists_segment {segment : Segment} {other : Phrase}
    (h : Names f branches (.segment segment) other) : ∃ s, other = .segment s := by
  cases h <;> exact ⟨_, rfl⟩

theorem exists_target {target : Target} {other : Phrase}
    (h : Names f branches (.target target) other) : ∃ t, other = .target t := by
  cases h <;> exact ⟨_, rfl⟩

theorem exists_row {segments : List Segment} {other : Phrase}
    (h : Names f branches (.row segments) other) : ∃ ss, other = .row ss := by
  cases h <;> exact ⟨_, rfl⟩

theorem exists_body {segments : List Segment} {other : Phrase}
    (h : Names f branches (.body segments) other) : ∃ ss, other = .body ss := by
  cases h
  exact ⟨_, rfl⟩

theorem mem_parts {phrase other : Phrase} (h : Names f branches phrase other) :
    .segment (.choice branches) ∈ phrase.parts := by
  induction h with
  | here => simp [parts, Segment.parts]
  | reference _ ih => exact List.mem_cons_of_mem _ ih
  | choice _ ih => exact List.mem_cons_of_mem _ (mem_allParts.mpr ⟨_, by simp, ih⟩)
  | dereference _ ih => exact List.mem_cons_of_mem _ ih
  | pattern _ ih => exact List.mem_cons_of_mem _ ih
  | first _ ih => exact List.mem_append_left _ ih
  | rest _ ih => exact List.mem_append_right _ ih
  | body _ ih => exact ih

end Phrase.Names

/-- Wherever the choice stands, it can be named there. -/
theorem Phrase.exists_names (f : String) (branches : List Rule) :
    Phrase.Inductive fun phrase => .segment (.choice branches) ∈ phrase.parts →
      ∃ other, phrase.Names f branches other where
  literal text := by simp [parts, Segment.parts]
  reference target modifiers ih := by
    intro h
    obtain ⟨other, hother⟩ := ih ((List.mem_cons.mp h).resolve_left (by simp))
    obtain ⟨t, rfl⟩ := hother.exists_target
    exact ⟨_, .reference hother⟩
  choice others ih := by
    intro h
    rcases List.mem_cons.mp h with heq | h
    · cases heq
      exact ⟨_, .here⟩
    · obtain ⟨rule, hmem, hpart⟩ := mem_allParts.mp h
      obtain ⟨other, hother⟩ := ih rule hmem hpart
      obtain ⟨ss, rfl⟩ := hother.exists_body
      obtain ⟨before, after, rfl⟩ := List.append_of_mem hmem
      exact ⟨_, .choice hother⟩
  symbolTarget name ih := by simp [parts, Target.parts]
  dereference inner ih := by
    intro h
    obtain ⟨other, hother⟩ := ih ((List.mem_cons.mp h).resolve_left (by simp))
    obtain ⟨s, rfl⟩ := hother.exists_segment
    exact ⟨_, .dereference hother⟩
  quoted text := by simp [parts, Target.parts]
  pattern segments ih := by
    intro h
    obtain ⟨other, hother⟩ := ih ((List.mem_cons.mp h).resolve_left (by simp))
    obtain ⟨ss, rfl⟩ := hother.exists_body
    exact ⟨_, .pattern hother⟩
  range range := by simp [parts, Target.parts]
  nil := by simp [parts, Segment.allParts]
  cons segment segments ihSegment ihRow := by
    intro h
    rcases List.mem_append.mp h with h | h
    · obtain ⟨other, hother⟩ := ihSegment h
      obtain ⟨s, rfl⟩ := hother.exists_segment
      exact ⟨_, .first hother⟩
    · obtain ⟨other, hother⟩ := ihRow h
      obtain ⟨ss, rfl⟩ := hother.exists_row
      exact ⟨_, .rest hother⟩
  body segments ih := by
    intro h
    obtain ⟨other, hother⟩ := ih h
    obtain ⟨ss, rfl⟩ := hother.exists_row
    exact ⟨_, .body hother⟩
  symbol name := by simp [parts]

/-! ## Looking up symbols -/

/-- What a symbol is declared as in both grammars. -/
theorem Grammar.Names.exists_symbol? {g other : Grammar} (h : g.Names f branches other)
    {name : String} {symbol : Symbol} (hsymbol : g.symbol? name = some symbol) :
    ∃ named, other.symbol? name = some named ∧ symbol.Names f branches named := by
  obtain ⟨symbols, line, hsymbols, hnamed⟩ := h
  have hfind : ∀ {xs ys : List Symbol}, List.Forall₂ (Symbol.Names f branches) xs ys →
      xs.find? (·.name == name) = some symbol →
      ∃ named, ys.find? (·.name == name) = some named ∧ symbol.Names f branches named := by
    intro xs ys hxy hx
    induction hxy with
    | nil => cases hx
    | @cons x y xs ys hfirst _ ih =>
      rw [List.find?_cons, hfirst.sameName]
      rw [List.find?_cons] at hx
      cases hmatch : x.name == name with
      | true =>
        simp only [hmatch, Option.some.injEq] at hx
        subst hx
        exact ⟨y, rfl, hfirst⟩
      | false =>
        simp only [hmatch] at hx
        exact ih hx
  obtain ⟨named, hfound, hnames⟩ := hfind hnamed hsymbol
  refine ⟨named, ?_, hnames⟩
  rw [symbol?, hsymbols, List.find?_append, hfound, Option.some_or]

/-- The name finds the symbol for the branches, as it is not declared otherwise. -/
theorem Grammar.Names.symbol?_name {g other : Grammar} (h : g.Names f branches other)
    (hfresh : g.contains f = false) :
    ∃ line, other.symbol? f = some ⟨f, branches, line⟩ := by
  obtain ⟨symbols, line, hsymbols, hnamed⟩ := h
  have hnone : ∀ {xs ys : List Symbol}, List.Forall₂ (Symbol.Names f branches) xs ys →
      xs.any (·.name == f) = false → ys.find? (·.name == f) = none := by
    intro xs ys hxy hx
    induction hxy with
    | nil => rfl
    | @cons x y xs ys hfirst _ ih =>
      rw [List.any_cons, Bool.or_eq_false_iff] at hx
      rw [List.find?_cons, hfirst.sameName, hx.1]
      exact ih hx.2
  refine ⟨line, ?_⟩
  rw [symbol?, hsymbols, List.find?_append, hnone hnamed hfresh, Option.none_or]
  simp

/-- A rule has the same weight whatever is named in it. -/
theorem weights_of_names {rules others : List Rule}
    (h : List.Forall₂ (Rule.Names f branches) rules others) :
    others.map (·.weight) = rules.map (·.weight) := by
  induction h with
  | nil => rfl
  | cons hrule _ ih =>
    rw [List.map_cons, List.map_cons, ih]
    cases hrule <;> rfl

end

/-! ## Expansions that follow others -/

/-- The walks have come equally far in words and steps. -/
structure Walk.Abreast (a b : Walk σ) : Prop where
  source : b.source = a.source
  steps : b.steps = a.steps

/-- When the one expansion gives something, so does the other, from the same words in as many
steps. -/
def Follows (x y : Expansion σ α) : Prop :=
  ∀ a b result last, Walk.Abreast a b → x.along a = (.ok result, last) →
    ∃ other, y.along b = (.ok result, other) ∧ Walk.Abreast last other

theorem follows_pure (a : α) : Follows (pure a : Expansion σ α) (pure a) := alike_pure a

theorem Follows.bind {x y : Expansion σ α} {f g : α → Expansion σ β} (hxy : Follows x y)
    (hfg : ∀ a, Follows (f a) (g a)) : Follows (x >>= f) (y >>= g) :=
  Alike.bind hxy hfg

/-- A text that comes of the one expansion comes of the other. -/
theorem Follows.run {x y : Expansion σ (List Char)} (h : Follows x y) {source : σ} {text : String}
    (hresult : (Expander.run x source).result = .ok text) :
    (Expander.run y source).result = .ok text ∧
      Walk.Abreast (Expander.run x source).walk (Expander.run y source).walk := by
  rw [Expander.run_eq] at hresult ⊢
  rw [Expander.run_eq]
  obtain ⟨letters, hletters, rfl⟩ := map_eq_ok.mp hresult
  obtain ⟨last, hlast, habreast⟩ := h _ _ _ _ ⟨rfl, rfl⟩ (Prod.ext hletters rfl)
  rw [hlast]
  exact ⟨rfl, habreast⟩

section

variable (e : Expander σ)

theorem follows_step : Follows e.step e.step := by
  intro a b _ last habreast h
  unfold Expander.step at h ⊢
  rw [along_bind_ok (along_get a)] at h
  rw [along_bind_ok (along_get b), habreast.steps]
  cases hbudget : e.limits.stepBudget with
  | none =>
    rw [hbudget] at h
    cases h
    exact ⟨_, rfl, habreast.source, rfl⟩
  | some budget =>
    simp only [hbudget] at h ⊢
    by_cases hspent : budget ≤ a.steps
    · rw [if_pos hspent] at h
      cases h
    · rw [if_neg hspent] at h ⊢
      cases h
      exact ⟨_, rfl, habreast.source, rfl⟩

end

/-! ## Phrases -/

/-- The expander of another grammar, with room for a symbol more in each one that is open, and for
one more besides. -/
def Expander.named (e : Expander σ) (g : Grammar) : Expander σ :=
  { e with grammar := g, limits := { e.limits with maxDepth := 2 * e.limits.maxDepth + 1 } }

section

variable {e : Expander σ} {g : Grammar} {enter entered : String → Expansion σ (List Char)}
  {owner other : String}

/-- The expander of another grammar stays abreast. -/
theorem alongside_named (e : Expander σ) (g : Grammar) :
    e.Alongside (e.named g) Walk.Abreast where
  inflector := rfl
  chance := rfl
  shares := ⟨fun h => h.source, fun h _ => ⟨rfl, h.steps⟩⟩
  step := follows_step e

/-- A pick among rules is followed by one among as many rules of the same weights. -/
theorem follows_expandPicked {rules others : List Rule}
    (hweights : others.map (·.weight) = rules.map (·.weight))
    (hrules : ∀ (n : Nat) (rule : Rule), rules[n]? = some rule → ∃ r : Rule, others[n]? = some r ∧
      Follows ((Phrase.body rule.segments).expand e enter owner)
        ((Phrase.body r.segments).expand (e.named g) entered other)) :
    Follows (e.expandPicked enter owner rules) ((e.named g).expandPicked entered other others) :=
  (alongside_named e g).expandPicked hweights hrules

/-- A phrase in which nothing is named. -/
theorem follows_same (henter : ∀ name, Follows (enter name) (entered name)) :
    Phrase.Inductive fun phrase => Follows (phrase.expand e enter owner)
      (phrase.expand (e.named g) entered other) :=
  (alongside_named e g).expand henter

/-- A phrase in which a choice is named. The symbol that it is named after makes the same pick as
the choice does. -/
theorem follows_names {f : String} {branches : List Rule} {phrase replaced : Phrase}
    (henter : ∀ name, Follows (enter name) (entered name))
    (hname : ∀ owner, Follows (e.expandPicked enter owner branches) (entered f))
    (h : phrase.Names f branches replaced) :
    Follows (phrase.expand e enter owner) (replaced.expand (e.named g) entered other) := by
  induction h with
  | here =>
    rw [expand_choice, expand_reference, expand_symbolTarget]
    refine (follows_step e).bind fun _ => ?_
    rw [← bind_pure (e.expandPicked enter owner branches)]
    exact (hname owner).bind fun _ => follows_pure _
  | reference _ ih =>
    rw [expand_reference, expand_reference]
    exact (follows_step e).bind fun _ => ih.bind fun _ => follows_pure _
  | @choice before after rule segments _ ih =>
    rw [expand_choice, expand_choice]
    refine (follows_step e).bind fun _ => follows_expandPicked (by simp) fun n found hfound => ?_
    have hsame (r : Rule) : Follows ((Phrase.body r.segments).expand e enter owner)
        ((Phrase.body r.segments).expand (e.named g) entered other) :=
      (follows_same henter).all _
    -- The rule of the number stands in front of the branch, is the branch, or stands behind it.
    rcases Nat.lt_trichotomy n before.length with hlt | rfl | hgt
    · rw [List.getElem?_append_left hlt] at hfound ⊢
      exact ⟨found, hfound, hsame found⟩
    · rw [List.getElem?_append_right (Nat.le_refl _), Nat.sub_self,
        List.getElem?_cons_zero] at hfound
      cases hfound
      refine ⟨⟨segments, rule.weight⟩, ?_, ih⟩
      rw [List.getElem?_append_right (Nat.le_refl _), Nat.sub_self, List.getElem?_cons_zero]
    · obtain ⟨k, hk⟩ : ∃ k, n - before.length = k + 1 :=
        Nat.exists_eq_succ_of_ne_zero (Nat.sub_ne_zero_of_lt hgt)
      rw [List.getElem?_append_right (Nat.le_of_lt hgt), hk, List.getElem?_cons_succ] at hfound ⊢
      exact ⟨found, hfound, hsame found⟩
  | dereference _ ih =>
    rw [expand_dereference, expand_dereference]
    exact ih.bind fun _ => henter _
  | pattern _ ih =>
    rw [expand_pattern, expand_pattern]
    exact ih
  | @first segment replaced segments _ ih =>
    rw [expand_cons, expand_cons]
    exact ih.bind fun _ => ((follows_same henter).all (.row segments)).bind fun _ => follows_pure _
  | @rest segment segments others _ ih =>
    rw [expand_cons, expand_cons]
    exact ((follows_same henter).all (.segment segment)).bind fun _ => ih.bind fun _ =>
      follows_pure _
  | body _ ih =>
    rw [expand_body, expand_body]
    exact ih.bind fun _ => follows_pure _

theorem follows_rule {f : String} {branches : List Rule} {rule replaced : Rule}
    (henter : ∀ name, Follows (enter name) (entered name))
    (hname : ∀ owner, Follows (e.expandPicked enter owner branches) (entered f))
    (h : rule.Names f branches replaced) :
    Follows ((Phrase.body rule.segments).expand e enter owner)
      ((Phrase.body replaced.segments).expand (e.named g) entered other) := by
  cases h with
  | same => exact (follows_same henter).all _
  | once inBody => exact follows_names henter hname inBody

/-! ## Symbols -/

/-- A symbol that is opened and closed is expanded as its rules are. -/
theorem follows_enter_succ {x : Expansion σ (List Char)} {room : Nat} {name : String}
    {symbol : Symbol} (hsymbol : e.grammar.symbol? name = some symbol)
    (h : Follows x (e.expandPicked (e.enter room) name symbol.rules)) :
    Follows x (e.enter (room + 1) name) := by
  intro a b text last habreast hx
  have hopened : Walk.Abreast a (Expander.openedWalk b) := ⟨habreast.source, habreast.steps⟩
  obtain ⟨before, hpicked, hbefore⟩ := h _ _ _ _ hopened hx
  rw [e.along_enter_succ b hsymbol, along_bind_ok hpicked]
  exact ⟨Expander.closedWalk before, rfl, hbefore.source, hbefore.steps⟩

/-- A symbol that gives a text is expanded as its rules are. -/
theorem follows_of_enter {y : Expansion σ (List Char)} {room : Nat} {name : String}
    (h : ∀ less symbol, room = less + 1 → e.grammar.symbol? name = some symbol →
      Follows (e.expandPicked (e.enter less) name symbol.rules) y) :
    Follows (e.enter room name) y := by
  intro a b text last habreast hx
  obtain ⟨less, symbol, before, hroom, hsymbol, hpicked, rfl⟩ := Expander.enter_eq_ok hx
  have hopened : Walk.Abreast (Expander.openedWalk a) b := ⟨habreast.source, habreast.steps⟩
  obtain ⟨other, hother, hlast⟩ := h less symbol hroom hsymbol _ _ _ _ hopened hpicked
  exact ⟨other, hother, hlast.source, hlast.steps⟩

section

variable {f : String} {branches : List Rule} (hnames : e.grammar.Names f branches g)
  (hfresh : e.grammar.contains f = false)
include hnames hfresh

/-- The symbol for the branches takes one of the symbols that may be open, and leaves the others
to what the branches refer to. -/
theorem follows_branches {room more : Nat}
    (henter : ∀ name, Follows (e.enter room name) ((e.named g).enter more name)) (owner : String) :
    Follows (e.expandPicked (e.enter room) owner branches) ((e.named g).enter (more + 1) f) := by
  obtain ⟨line, hsymbol⟩ := hnames.symbol?_name hfresh
  refine follows_enter_succ hsymbol (follows_expandPicked rfl fun n rule hrule => ?_)
  exact ⟨rule, hrule, (follows_same henter).all _⟩

/-- Where twice as many symbols may be open, each symbol gives what it gave. -/
theorem follows_enter (room : Nat) : ∀ more, 2 * room ≤ more → ∀ name,
    Follows (e.enter room name) ((e.named g).enter more name) := by
  induction room with
  | zero =>
    intro more _ name
    refine follows_of_enter fun less symbol hroom _ => ?_
    cases hroom
  | succ room ih =>
    intro more hmore name
    obtain ⟨more, rfl⟩ : ∃ k, more = k + 2 := Nat.exists_eq_add_of_le' (by omega)
    refine follows_of_enter fun less symbol hroom hsymbol => ?_
    cases hroom
    obtain ⟨named, hnamed, hrules⟩ := hnames.exists_symbol? hsymbol
    refine follows_enter_succ hnamed ?_
    refine follows_expandPicked (weights_of_names hrules.rules) fun n rule hrule => ?_
    obtain ⟨replaced, hreplaced, hrule⟩ : ∃ r, named.rules[n]? = some r ∧
        rule.Names f branches r := by
      obtain ⟨hn, rfl⟩ := List.getElem?_eq_some_iff.mp hrule
      have hn' : n < named.rules.length := hrules.rules.length_eq ▸ hn
      exact ⟨_, List.getElem?_eq_getElem hn', hrules.rules.get hn hn'⟩
    refine ⟨replaced, hreplaced, follows_rule (ih _ (by omega)) ?_ hrule⟩
    exact follows_branches hnames hfresh (ih _ (by omega))

/-- What comes of a start comes of the other one. -/
theorem follows_start {start replaced : Start} (h : start.Names f branches replaced) :
    Follows ((start.focus e.grammar).expand e) ((replaced.focus g).expand (e.named g)) := by
  have henter : ∀ name, Follows (e.enter e.limits.maxDepth name)
      ((e.named g).enter (2 * e.limits.maxDepth + 1) name) :=
    follows_enter hnames hfresh _ _ (Nat.le_succ _)
  cases h with
  | symbol name => exact henter name
  | rule owner names =>
    refine follows_rule henter ?_ names
    exact follows_branches hnames hfresh (follows_enter hnames hfresh _ _ (Nat.le_refl _))

end

end

/-! ## The law -/

/-- A choice, wherever it stands in a phrase, can be named. When a text comes of a grammar and a
start, the same text comes of them with the choice named, from the same words and in as many steps,
where twice as many symbols and one more may be open. -/
theorem choices_may_be_named (e : Expander σ) (f : String) (branches : List Rule)
    (hfresh : e.grammar.contains f = false) :
    (∀ phrase : Phrase, .segment (.choice branches) ∈ phrase.parts ↔
      ∃ other, phrase.Names f branches other) ∧
    ∀ (g : Grammar) (start replaced : Start) (source : σ) (text : String),
      e.grammar.Names f branches g → start.Names f branches replaced →
      (start.outcome e source).result = .ok text →
        (replaced.outcome (e.named g) source).result = .ok text ∧
        (replaced.outcome (e.named g) source).walk.source = (start.outcome e source).walk.source ∧
        (replaced.outcome (e.named g) source).walk.steps =
          (start.outcome e source).walk.steps := by
  refine ⟨fun phrase => ⟨(Phrase.exists_names f branches).all phrase, ?_⟩, ?_⟩
  · rintro ⟨other, hother⟩
    exact hother.mem_parts
  · intro g start replaced source text hnames hstart hresult
    rw [outcome_eq_run] at hresult ⊢
    rw [outcome_eq_run]
    obtain ⟨hsame, habreast⟩ := (follows_start hnames hfresh hstart).run hresult
    exact ⟨hsame, habreast.source, habreast.steps⟩

/-- Who sits in the hall. -/
def folk : List Rule :=
  [⟨[.literal "guest"], .one⟩, ⟨[.literal "ho", .reference (.symbol "rest") []], .one⟩]

/-- Hails whoever sits there, by the name that the segment computes. -/
def hail (who : Segment) : Symbol :=
  ⟨"hail", [⟨[.literal "Hail, ", .reference (.dereference who) [.capitalize]], .one⟩], 1⟩

/-- What is called whoever sits there. -/
def salutes : List Symbol :=
  [⟨"host", [⟨[.literal "friend"], .one⟩], 3⟩, ⟨"guest", [⟨[.literal "stranger"], .one⟩], 5⟩,
    ⟨"rest", [⟨[.literal "st"], .one⟩], 7⟩]

def hall : Grammar := ⟨hail (.choice folk) :: salutes⟩

/-- The hall, with its folk named. -/
def namedHall : Grammar :=
  ⟨hail (.reference (.symbol "folk") []) :: salutes ++ [⟨"folk", folk, 9⟩]⟩

/-- The law in the hall, where the choice computes a name and one of its branches refers to a
symbol: the host is hailed either way, with three symbols open in place of two. -/
theorem folk_may_be_named :
    let e : Expander WordList := ⟨hall, .ofWords, .english, { maxDepth := 2, stepBudget := some 9 }⟩
    let source : WordList := ⟨[3, 18446744073709551615, 5, 7], 0⟩
    e.grammar.contains "folk" = false ∧ e.grammar.Names "folk" folk namedHall ∧
    (e.expandSymbol "hail" source).result = .ok "Hail, Friend" ∧
    ((e.named namedHall).expandSymbol "hail" source).result = .ok "Hail, Friend" ∧
    ((e.named namedHall).expandSymbol "hail" source).walk.deepest = 3 := by
  intro e source
  have hfresh : e.grammar.contains "folk" = false := by decide +kernel
  have hnames : e.grammar.Names "folk" folk namedHall := by
    refine ⟨hail (.reference (.symbol "folk") []) :: salutes, 9, rfl, ?_⟩
    have hsame : ∀ symbol : Symbol, symbol.Names "folk" folk symbol :=
      fun symbol => ⟨rfl, List.forall₂_same.mpr fun _ _ => .same⟩
    refine .cons ⟨rfl, .cons (.once ?_) .nil⟩ (List.forall₂_same.mpr fun symbol _ => hsame symbol)
    exact .body (.rest (.first (.reference (.dereference .here))))
  have hresult : (e.expandSymbol "hail" source).result = .ok "Hail, Friend" := by decide +kernel
  have hlaw := (choices_may_be_named e "folk" folk hfresh).2 namedHall (.symbol "hail")
    (.symbol "hail") source _ hnames (.symbol _) hresult
  exact ⟨hfresh, hnames, hresult, hlaw.1, by decide +kernel⟩

end TextGrammar
