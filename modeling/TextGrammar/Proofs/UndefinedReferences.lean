-- The law of undefined references. Of each declaration the check reports the names that its rules
-- refer to, at whatever depth of brackets, without their being declared: each name once, in the
-- order in which they first come up when the rules are read from left to right.
import TextGrammar.Lint
import TextGrammar.Proofs.Phrases

namespace TextGrammar

/-! ## Places -/

/-- The segments that stand directly inside of a target, from left to right. -/
def Target.inside : Target → List Segment
  | .dereference inner => [inner]
  | .pattern segments => segments
  | _ => []

/-- The segments that stand directly inside of a segment, from left to right. -/
def Segment.inside : Segment → List Segment
  | .literal _ => []
  | .reference target _ => target.inside
  | .choice branches => branches.flatMap Rule.segments

/-- A row of segments refers to a symbol at a place. The place is the number of a segment of the
row, then the number of one inside of that, and so on down to the reference. -/
inductive RefersAt (name : String) : (row : List Segment) → (place : List Nat) → Prop
  | here {row : List Segment} {i : Nat} {modifiers : List Modifier}
      (refers : row[i]? = some (.reference (.symbol name) modifiers)) : RefersAt name row [i]
  | inside {row : List Segment} {i : Nat} {segment : Segment} {place : List Nat}
      (stands : row[i]? = some segment) (refers : RefersAt name segment.inside place) :
      RefersAt name row (i :: place)

/-- The rules of a symbol refer to a name at a place, counted through all of the rules. -/
def Symbol.RefersAt (symbol : Symbol) (name : String) (place : List Nat) : Prop :=
  TextGrammar.RefersAt name (symbol.rules.flatMap Rule.segments) place

/-- The segment is a reference to the symbol, or refers to it at a place inside. -/
def Segment.RefersAt (segment : Segment) (name : String) (place : List Nat) : Prop :=
  place = [] ∧ (∃ modifiers, segment = .reference (.symbol name) modifiers) ∨
    TextGrammar.RefersAt name segment.inside place

section

variable {name : String} {row : List Segment}

theorem not_refersAt_nil : ¬RefersAt name row [] := nofun

theorem refersAt_cons {i : Nat} {place : List Nat} : RefersAt name row (i :: place) ↔
    ∃ segment, row[i]? = some segment ∧ segment.RefersAt name place := by
  constructor
  · intro h
    cases h with
    | here refers => exact ⟨_, refers, .inl ⟨rfl, _, rfl⟩⟩
    | inside stands refers => exact ⟨_, stands, .inr refers⟩
  · rintro ⟨segment, hsegment, ⟨rfl, modifiers, rfl⟩ | hinside⟩
    · exact .here hsegment
    · exact .inside hsegment hinside

end

/-! ## References with their places -/

/-- The list has the names and places that are related, from left to right. -/
structure InOrder (At : String → List Nat → Prop) (found : List (List Nat × String)) : Prop where
  mem_iff : ∀ place name, (place, name) ∈ found ↔ At name place
  increasing : found.Pairwise fun a b => a.1 < b.1

/-- The row refers to a name at a place, with `count` segments in front of the row. -/
def RefersFrom (count : Nat) (row : List Segment) (name : String) (place : List Nat) : Prop :=
  ∃ i rest, place = (count + i) :: rest ∧ RefersAt name row (i :: rest)

/-- The names are what the places have, from left to right. -/
def NamedInOrder (At : String → List Nat → Prop) (names : List String) : Prop :=
  ∃ found, InOrder At found ∧ found.map Prod.snd = names

theorem namedInOrder_nil {At : String → List Nat → Prop} (h : ∀ name place, ¬At name place) :
    NamedInOrder At [] :=
  ⟨[], ⟨fun place name => by simp [h], .nil⟩, rfl⟩

theorem refersFrom_append {count : Nat} {a b : List Segment} {name : String} {place : List Nat} :
    RefersFrom count (a ++ b) name place ↔
      RefersFrom count a name place ∨ RefersFrom (count + a.length) b name place := by
  constructor
  · rintro ⟨i, rest, rfl, h⟩
    obtain ⟨segment, hsegment, hrefers⟩ := refersAt_cons.mp h
    by_cases hi : i < a.length
    · rw [List.getElem?_append_left hi] at hsegment
      exact .inl ⟨i, rest, rfl, refersAt_cons.mpr ⟨segment, hsegment, hrefers⟩⟩
    · rw [List.getElem?_append_right (Nat.le_of_not_lt hi)] at hsegment
      have hplace : count + i = count + a.length + (i - a.length) := by omega
      exact .inr ⟨i - a.length, rest, by rw [hplace],
        refersAt_cons.mpr ⟨segment, hsegment, hrefers⟩⟩
  · rintro (⟨i, rest, rfl, h⟩ | ⟨i, rest, rfl, h⟩)
    · obtain ⟨segment, hsegment, hrefers⟩ := refersAt_cons.mp h
      obtain ⟨hi, _⟩ := List.getElem?_eq_some_iff.mp hsegment
      refine ⟨i, rest, rfl, refersAt_cons.mpr ⟨segment, ?_, hrefers⟩⟩
      rwa [List.getElem?_append_left hi]
    · obtain ⟨segment, hsegment, hrefers⟩ := refersAt_cons.mp h
      refine ⟨a.length + i, rest, by rw [Nat.add_assoc], refersAt_cons.mpr ⟨segment, ?_, hrefers⟩⟩
      rwa [List.getElem?_append_right (Nat.le_add_right _ _), Nat.add_sub_cancel_left]

/-- What is in a row stands in front of what follows the row. -/
theorem refersFrom_lt {count : Nat} {a b : List Segment} {name other : String}
    {place later : List Nat} (ha : RefersFrom count a name place)
    (hb : RefersFrom (count + a.length) b other later) : place < later := by
  obtain ⟨i, rest, rfl, h⟩ := ha
  obtain ⟨j, others, rfl, _⟩ := hb
  obtain ⟨segment, hsegment, _⟩ := refersAt_cons.mp h
  obtain ⟨hi, _⟩ := List.getElem?_eq_some_iff.mp hsegment
  exact List.cons_lt_cons_iff.mpr (.inl (by omega))

/-- A row behind another. -/
theorem namedInOrder_append {count : Nat} {a b : List Segment} {names others : List String}
    (ha : NamedInOrder (RefersFrom count a) names)
    (hb : NamedInOrder (RefersFrom (count + a.length) b) others) :
    NamedInOrder (RefersFrom count (a ++ b)) (names ++ others) := by
  obtain ⟨as, has, rfl⟩ := ha
  obtain ⟨bs, hbs, rfl⟩ := hb
  refine ⟨as ++ bs, ⟨fun place name => ?_, ?_⟩, List.map_append⟩
  · rw [List.mem_append, has.mem_iff, hbs.mem_iff, refersFrom_append]
  · refine List.pairwise_append.mpr ⟨has.increasing, hbs.increasing, ?_⟩
    rintro ⟨place, name⟩ hplace ⟨later, other⟩ hlater
    exact refersFrom_lt ((has.mem_iff _ _).mp hplace) ((hbs.mem_iff _ _).mp hlater)

/-- A segment in a row. -/
theorem namedInOrder_singleton {segment : Segment} {names : List String}
    (h : NamedInOrder segment.RefersAt names) (count : Nat) :
    NamedInOrder (RefersFrom count [segment]) names := by
  obtain ⟨found, hfound, rfl⟩ := h
  refine ⟨found.map (Prod.map (count :: ·) id), ⟨fun place name => ?_, ?_⟩, ?_⟩
  · constructor
    · intro hmem
      obtain ⟨⟨rest, _⟩, hrest, heq⟩ := List.mem_map.mp hmem
      cases heq
      exact ⟨0, rest, rfl, refersAt_cons.mpr ⟨segment, rfl, (hfound.mem_iff _ _).mp hrest⟩⟩
    · rintro ⟨i, rest, rfl, hrefers⟩
      obtain ⟨other, hother, hrefers⟩ := refersAt_cons.mp hrefers
      obtain ⟨rfl, rfl⟩ : i = 0 ∧ segment = other := by
        cases i with
        | zero => exact ⟨rfl, Option.some.inj hother⟩
        | succ i => cases hother
      exact List.mem_map.mpr ⟨(rest, name), (hfound.mem_iff _ _).mpr hrefers, rfl⟩
  · rw [List.pairwise_map]
    exact hfound.increasing.imp fun hlt => List.cons_lt_cons_self.mpr hlt
  · rw [List.map_map]
    rfl

/-- The places of a row by itself. -/
theorem refersFrom_zero {row : List Segment} {name : String} {place : List Nat} :
    RefersFrom 0 row name place ↔ RefersAt name row place := by
  constructor
  · rintro ⟨i, rest, rfl, h⟩
    rwa [Nat.zero_add]
  · intro h
    cases place with
    | nil => exact absurd h not_refersAt_nil
    | cons i rest => exact ⟨i, rest, by rw [Nat.zero_add], h⟩

theorem NamedInOrder.congr {At Other : String → List Nat → Prop} {names : List String}
    (h : NamedInOrder At names) (hiff : ∀ name place, At name place ↔ Other name place) :
    NamedInOrder Other names := by
  obtain ⟨found, hfound, rfl⟩ := h
  exact ⟨found, ⟨fun place name => (hfound.mem_iff place name).trans (hiff name place),
    hfound.increasing⟩, rfl⟩

theorem namedInOrder_row_nil (count : Nat) : NamedInOrder (RefersFrom count []) [] := by
  refine namedInOrder_nil ?_
  rintro name place ⟨i, rest, rfl, hrefers⟩
  obtain ⟨segment, hsegment, _⟩ := refersAt_cons.mp hrefers
  cases hsegment

/-- The rows of some rules, one after the other. -/
theorem namedInOrder_rules {rules : List Rule}
    (h : ∀ rule ∈ rules, ∀ count,
      NamedInOrder (RefersFrom count rule.segments) (Segment.allReferences rule.segments)) :
    ∀ count, NamedInOrder (RefersFrom count (rules.flatMap Rule.segments))
      (Rule.allReferences rules) := by
  induction rules with
  | nil => exact namedInOrder_row_nil
  | cons rule rules ih =>
    intro count
    obtain ⟨segments, weight⟩ := rule
    have hrule := h _ List.mem_cons_self count
    have hrules := ih (fun other hother => h other (List.mem_cons_of_mem _ hother))
      (count + segments.length)
    exact namedInOrder_append hrule hrules

/-- The references of a phrase are the names at its places, from left to right. -/
def Phrase.NamesPlaces : Phrase → Prop
  | .segment s => NamedInOrder s.RefersAt s.references
  | .target t => ∀ modifiers, NamedInOrder (Segment.reference t modifiers).RefersAt t.references
  | .row ss => ∀ count, NamedInOrder (RefersFrom count ss) (Segment.allReferences ss)
  | .body ss => ∀ count, NamedInOrder (RefersFrom count ss) (Segment.allReferences ss)
  | .symbol _ => True

/-- A segment that is no reference to a symbol itself. -/
theorem namedInOrder_inside {segment : Segment} {names : List String}
    (hother : ∀ name modifiers, segment ≠ .reference (.symbol name) modifiers)
    (h : ∀ count, NamedInOrder (RefersFrom count segment.inside) names) :
    NamedInOrder segment.RefersAt names := by
  refine (h 0).congr fun name place => refersFrom_zero.trans ⟨.inr, fun hrefers => ?_⟩
  refine hrefers.resolve_left ?_
  rintro ⟨_, modifiers, heq⟩
  exact hother name modifiers heq

theorem namesPlaces : Phrase.Inductive Phrase.NamesPlaces where
  literal text := namedInOrder_inside nofun namedInOrder_row_nil
  reference target modifiers ih := ih modifiers
  choice branches ih := namedInOrder_inside nofun (namedInOrder_rules ih)
  symbolTarget name _ := by
    intro modifiers
    refine ⟨[([], name)], ⟨fun place other => ?_, List.pairwise_singleton _ _⟩, rfl⟩
    rw [List.mem_singleton, Prod.mk.injEq]
    constructor
    · rintro ⟨rfl, rfl⟩
      exact .inl ⟨rfl, modifiers, rfl⟩
    · rintro (⟨rfl, _, heq⟩ | hinside)
      · cases heq
        exact ⟨rfl, rfl⟩
      · cases hinside <;> contradiction
  dereference inner ih := fun _ => namedInOrder_inside nofun (namedInOrder_singleton ih)
  quoted text := fun _ => namedInOrder_inside nofun namedInOrder_row_nil
  pattern segments ih := fun _ => namedInOrder_inside nofun ih
  range range := fun _ => namedInOrder_inside nofun namedInOrder_row_nil
  nil := namedInOrder_row_nil
  cons segment segments ihSegment ihRow := by
    intro count
    exact namedInOrder_append (namedInOrder_singleton ihSegment count) (ihRow (count + 1))
  body segments ih := ih
  symbol name := trivial

/-- The names that the rules of a symbol refer to, from left to right. -/
theorem namedInOrder_symbol (symbol : Symbol) :
    NamedInOrder symbol.RefersAt (symbol.rules.flatMap Rule.references) := by
  have hreferences : Rule.allReferences symbol.rules = symbol.rules.flatMap Rule.references := by
    induction symbol.rules with
    | nil => rfl
    | cons rule rules ih => rw [Rule.allReferences, ih, List.flatMap_cons]
  rw [← hreferences]
  refine (namedInOrder_rules (fun rule _ => namesPlaces.rule rule) 0).congr fun name place => ?_
  exact refersFrom_zero

/-! ## Names once each -/

/-- Some place of `a` is in front of all places of `b`. -/
def ComesFirst {α : Type} (At : α → List Nat → Prop) (a b : α) : Prop :=
  ∃ place, At a place ∧ ∀ later, At b later → place < later

theorem ComesFirst.ne {α : Type} {At : α → List Nat → Prop} {a b : α} (h : ComesFirst At a b) :
    a ≠ b := by
  rintro rfl
  obtain ⟨place, hplace, hlater⟩ := h
  exact List.lt_irrefl place (hlater place hplace)

section

variable {α : Type} [BEq α] [LawfulBEq α]

/-- When what is found again is left out, what comes first stands first. -/
theorem pairwise_eraseDups (found : List (List Nat × α))
    (hfound : found.Pairwise fun a b => a.1 < b.1) :
    (found.map Prod.snd).eraseDups.Pairwise
      (ComesFirst fun name place => (place, name) ∈ found) := by
  match found with
  | [] => exact .nil
  | (place, a) :: rest =>
    obtain ⟨hfirst, hrest⟩ := List.pairwise_cons.mp hfound
    have hothers : (rest.map Prod.snd).filter (fun b => !b == a) =
        (rest.filter fun b => !b.2 == a).map Prod.snd := List.filter_map
    -- Of what is found behind the first, all but the first name goes on as before.
    have hmem {later : List Nat} {b : α} (hne : b ≠ a) : (later, b) ∈ (place, a) :: rest ↔
        (later, b) ∈ rest.filter fun b => !b.2 == a := by
      simp [hne]
    have hother {b : α} (h : b ∈ ((rest.filter fun b => !b.2 == a).map Prod.snd).eraseDups) :
        b ≠ a := by
      obtain ⟨pair, hpair, rfl⟩ := List.mem_map.mp (List.mem_eraseDups.mp h)
      simpa using (List.mem_filter.mp hpair).2
    have ih := pairwise_eraseDups (rest.filter fun b => !b.2 == a) (hrest.filter _)
    rw [List.map_cons, List.eraseDups_cons, hothers]
    refine List.pairwise_cons.mpr ⟨fun b hb => ?_, ih.imp_of_mem fun hb hc hcomes => ?_⟩
    · refine ⟨place, List.mem_cons_self, fun later hlater => ?_⟩
      exact hfirst _ (List.mem_filter.mp ((hmem (hother hb)).mp hlater)).1
    · obtain ⟨earlier, hearlier, hlater⟩ := hcomes
      exact ⟨earlier, (hmem (hother hb)).mpr hearlier, fun later h =>
        hlater later ((hmem (hother hc)).mp h)⟩
termination_by found.length
decreasing_by exact Nat.lt_succ_of_le (List.length_filter_le _ _)

end

/-! ## The law -/

/-- The names that the rules of a symbol refer to without their being declared: each once, and that
which comes first in the rules stands first. -/
structure Grammar.Undeclared (g : Grammar) (symbol : Symbol) (names : List String) : Prop where
  once : names.Nodup
  mem_iff : ∀ name, name ∈ names ↔
    (∀ declared ∈ g.symbols, declared.name ≠ name) ∧ ∃ place, symbol.RefersAt name place
  ordered : names.Pairwise (ComesFirst symbol.RefersAt)

theorem Grammar.undeclared_undefinedIn (g : Grammar) (symbol : Symbol) :
    g.Undeclared symbol (g.undefinedIn symbol) := by
  obtain ⟨found, hfound, hnames⟩ := namedInOrder_symbol symbol
  have hkept : (symbol.rules.flatMap Rule.references).filter (fun name => !g.contains name) =
      (found.filter fun pair => !g.contains pair.2).map Prod.snd := by
    rw [← hnames]
    exact List.filter_map
  have hcontains (name : String) : (!g.contains name) = true ↔
      ∀ declared ∈ g.symbols, declared.name ≠ name := by
    simp [contains]
  have hordered : (g.undefinedIn symbol).Pairwise (ComesFirst symbol.RefersAt) := by
    rw [undefinedIn, hkept]
    refine (pairwise_eraseDups _ (hfound.increasing.filter _)).imp_of_mem ?_
    rintro a b - hb ⟨place, hplace, hlater⟩
    refine ⟨place, (hfound.mem_iff _ _).mp (List.mem_filter.mp hplace).1, fun later h => ?_⟩
    obtain ⟨pair, hpair, rfl⟩ := List.mem_map.mp (List.mem_eraseDups.mp hb)
    exact hlater later (List.mem_filter.mpr ⟨(hfound.mem_iff _ _).mpr h,
      (List.mem_filter.mp hpair).2⟩)
  refine ⟨hordered.imp ComesFirst.ne, fun name => ?_, hordered⟩
  rw [undefinedIn, List.mem_eraseDups, List.mem_filter, hcontains, and_comm, ← hnames]
  refine and_congr_right fun _ => ?_
  simp only [List.mem_map, Prod.exists, exists_eq_right, hfound.mem_iff]

/-- The check reports a reference as undefined for a symbol and a name exactly when the rules of the
symbol refer to the name somewhere, and no symbol of that name is declared: once for each
declaration, with its line, in the order of the declarations and then of the rules. -/
theorem undefined_references_are_reported_once (g : Grammar) :
    ∃ names : Symbol → List String, (∀ symbol, g.Undeclared symbol (names symbol)) ∧
      g.lint.filter (·.target?.isSome) = g.symbols.flatMap fun symbol =>
        (names symbol).map (LintIssue.undefinedReference symbol.name symbol.line) := by
  refine ⟨g.undefinedIn, g.undeclared_undefinedIn, ?_⟩
  unfold Grammar.lint
  dsimp only
  -- Only the issues of the first kind name what is not declared.
  rw [List.filter_append, List.filter_append, List.filter_eq_self.mpr, List.filter_eq_nil_iff.mpr,
    List.filter_eq_nil_iff.mpr, List.append_nil, List.append_nil]
  · intro issue hissue
    obtain ⟨symbol, _, rfl⟩ := List.mem_map.mp hissue
    exact Bool.false_ne_true
  · intro issue hissue
    obtain ⟨symbol, _, rfl⟩ := List.mem_map.mp hissue
    exact Bool.false_ne_true
  · intro issue hissue
    obtain ⟨symbol, _, hissue⟩ := List.mem_flatMap.mp hissue
    obtain ⟨name, _, rfl⟩ := List.mem_map.mp hissue
    rfl

end TextGrammar
