-- Parts: the phrases that a phrase is made of, at any nesting of its brackets. What holds of each
-- part on its own is read off here; what a symbol stands for is no part of its name.
import TextGrammar.Proofs.Canonical
import TextGrammar.Proofs.Phrases

namespace TextGrammar

/-! ## The parts of a phrase -/

mutual

/-- The parts of a segment, itself first. -/
def Segment.parts : Segment → List Phrase
  | .literal text => [.segment (.literal text)]
  | .reference target modifiers => .segment (.reference target modifiers) :: target.parts
  | .choice branches => .segment (.choice branches) :: Rule.allParts branches

/-- The parts of a target, itself first. -/
def Target.parts : Target → List Phrase
  | .symbol name => [.target (.symbol name), .symbol name]
  | .dereference inner => .target (.dereference inner) :: inner.parts
  | .quoted text => [.target (.quoted text)]
  | .pattern segments => .target (.pattern segments) :: Segment.allParts segments
  | .range range => [.target (.range range)]

/-- The parts of a rule. -/
def Rule.parts : Rule → List Phrase
  | ⟨segments, _⟩ => Segment.allParts segments

/-- The parts of a row of segments. -/
def Segment.allParts : List Segment → List Phrase
  | [] => []
  | segment :: segments => segment.parts ++ Segment.allParts segments

/-- The parts of some rules. -/
def Rule.allParts : List Rule → List Phrase
  | [] => []
  | rule :: rules => rule.parts ++ Rule.allParts rules

end

/-- The parts of the rules of a grammar. -/
def Grammar.parts (g : Grammar) : List Phrase := g.symbols.flatMap fun s => Rule.allParts s.rules

namespace Phrase

/-- The parts of a phrase. Rows and bodies are no parts themselves. -/
def parts : Phrase → List Phrase
  | .segment s => s.parts
  | .target t => t.parts
  | .row ss => Segment.allParts ss
  | .body ss => Segment.allParts ss
  | .symbol name => [.symbol name]

/-- Every part of the phrase has the property. -/
def All (F : Phrase → Prop) (phrase : Phrase) : Prop := ∀ part ∈ phrase.parts, F part

variable {F : Phrase → Prop}

@[simp]
theorem all_literal {text : String} :
    All F (.segment (.literal text)) ↔ F (.segment (.literal text)) := by
  simp [All, parts, Segment.parts]

@[simp]
theorem all_reference {target : Target} {modifiers : List Modifier} :
    All F (.segment (.reference target modifiers)) ↔
      F (.segment (.reference target modifiers)) ∧ All F (.target target) := by
  simp [All, parts, Segment.parts]

theorem mem_allParts {part : Phrase} {rules : List Rule} :
    part ∈ Rule.allParts rules ↔ ∃ rule ∈ rules, part ∈ (Phrase.body rule.segments).parts := by
  induction rules with
  | nil => simp [Rule.allParts]
  | cons rule rules ih =>
    obtain ⟨segments, weight⟩ := rule
    simp [Rule.allParts, Rule.parts, parts, ih]

@[simp]
theorem all_choice {branches : List Rule} :
    All F (.segment (.choice branches)) ↔
      F (.segment (.choice branches)) ∧ ∀ rule ∈ branches, All F (.body rule.segments) := by
  simp only [All, parts, Segment.parts, List.forall_mem_cons, mem_allParts]
  refine and_congr_right fun _ => ⟨?_, ?_⟩
  · exact fun h rule hmem part hpart => h part ⟨rule, hmem, hpart⟩
  · rintro h part ⟨rule, hmem, hpart⟩
    exact h rule hmem part hpart

@[simp]
theorem all_symbolTarget {name : String} :
    All F (.target (.symbol name)) ↔ F (.target (.symbol name)) ∧ F (.symbol name) := by
  simp [All, parts, Target.parts]

@[simp]
theorem all_dereference {inner : Segment} :
    All F (.target (.dereference inner)) ↔
      F (.target (.dereference inner)) ∧ All F (.segment inner) := by
  simp [All, parts, Target.parts]

@[simp]
theorem all_quoted {text : String} :
    All F (.target (.quoted text)) ↔ F (.target (.quoted text)) := by
  simp [All, parts, Target.parts]

@[simp]
theorem all_pattern {segments : List Segment} :
    All F (.target (.pattern segments)) ↔
      F (.target (.pattern segments)) ∧ All F (.body segments) := by
  simp [All, parts, Target.parts]

@[simp]
theorem all_range {range : DrawRange} :
    All F (.target (.range range)) ↔ F (.target (.range range)) := by
  simp [All, parts, Target.parts]

@[simp]
theorem all_nil : All F (.row []) := by
  simp [All, parts, Segment.allParts]

@[simp]
theorem all_cons {segment : Segment} {segments : List Segment} :
    All F (.row (segment :: segments)) ↔ All F (.segment segment) ∧ All F (.row segments) := by
  simp [All, parts, Segment.allParts, or_imp, forall_and]

@[simp]
theorem all_symbol {name : String} : All F (.symbol name) ↔ F (.symbol name) := by
  simp [All, parts]

theorem all_of_rule {g : Grammar} {symbol : Symbol} {rule : Rule} (h : ∀ part ∈ g.parts, F part)
    (hsymbol : symbol ∈ g.symbols) (hrule : rule ∈ symbol.rules) : All F (.body rule.segments) := by
  intro part hpart
  exact h part (List.mem_flatMap.mpr ⟨symbol, hsymbol, mem_allParts.mpr ⟨rule, hrule, hpart⟩⟩)

theorem mem_parts {g : Grammar} {part : Phrase} : part ∈ g.parts ↔
    ∃ symbol ∈ g.symbols, ∃ rule ∈ symbol.rules, part ∈ (Phrase.body rule.segments).parts := by
  simp only [Grammar.parts, List.mem_flatMap, mem_allParts]

/-! ## Symbols that are referred to -/

/-- The names of the symbols that a phrase refers to. -/
def references : Phrase → List String
  | .segment s => s.references
  | .target t => t.references
  | .row ss => Segment.allReferences ss
  | .body ss => Segment.allReferences ss
  | .symbol name => [name]

theorem references_body (rule : Rule) :
    (Phrase.body rule.segments).references = rule.references := by
  obtain ⟨segments, weight⟩ := rule
  rfl

theorem mem_allReferences {name : String} {rule : Rule} {rules : List Rule} (hmem : rule ∈ rules)
    (h : name ∈ (Phrase.body rule.segments).references) : name ∈ Rule.allReferences rules := by
  induction rules with
  | nil => cases hmem
  | cons first rules ih =>
    rw [Rule.allReferences]
    rcases List.mem_cons.mp hmem with rfl | hmem
    · obtain ⟨segments, weight⟩ := rule
      exact List.mem_append_left _ h
    · exact List.mem_append_right _ (ih hmem)

/-- What holds of all names that a phrase refers to holds of the symbols among its parts. -/
theorem all_symbols_of_references {D : String → Prop} : Phrase.Inductive fun phrase =>
    (∀ name ∈ phrase.references, D name) → phrase.All fun part => ∀ name, part = .symbol name →
      D name where
  literal text := by simp
  reference target modifiers ih := by
    intro h
    exact all_reference.mpr ⟨by simp, ih h⟩
  choice branches ih := by
    intro h
    refine all_choice.mpr ⟨by simp, fun rule hmem => ih rule hmem ?_⟩
    exact fun name hname => h name (mem_allReferences hmem hname)
  symbolTarget name ih := by
    intro h
    exact all_symbolTarget.mpr ⟨by simp, all_symbol.mp (ih h)⟩
  dereference inner ih := by
    intro h
    exact all_dereference.mpr ⟨by simp, ih h⟩
  quoted text := by simp
  pattern segments ih := by
    intro h
    exact all_pattern.mpr ⟨by simp, ih h⟩
  range range := by simp
  nil := by simp
  cons segment segments ihSegment ihRow := by
    intro h
    simp only [references, Segment.allReferences, List.mem_append, or_imp, forall_and] at h
    exact all_cons.mpr ⟨ihSegment h.1, ihRow h.2⟩
  body segments ih := ih
  symbol name := by
    intro h
    refine all_symbol.mpr ?_
    rintro _ ⟨⟩
    exact h name (List.mem_singleton.mpr rfl)

/-! ## Parts of what is read -/

/-- A range that is in order, and a choice by weights; all other parts are as they may be. -/
def Proper : Phrase → Prop
  | .target (.range range) => range.Proper
  | .segment (.choice branches) => ∀ branch ∈ branches, branch.weight.IsWeight
  | _ => True

/-- A phrase as reading gives it. -/
def Canonical (levels : Nat) : Phrase → Prop
  | .segment s => s.Canonical levels
  | .target t => t.Canonical levels
  | .row ss => ∀ s ∈ ss, s.Canonical levels
  | .body ss => ∀ s ∈ ss, s.Canonical levels
  | .symbol _ => True

theorem all_proper_of_canonical :
    Phrase.Inductive fun phrase => ∀ levels, phrase.Canonical levels → phrase.All Proper where
  literal text := by simp [Proper]
  reference target modifiers ih := by
    rintro _ (_ | h | _)
    exact all_reference.mpr ⟨trivial, ih _ h⟩
  choice branches ih := by
    rintro _ (_ | _ | ⟨_, h⟩)
    refine all_choice.mpr ⟨fun branch hmem => ?_, fun rule hmem => ?_⟩
    · cases h branch hmem with
      | mk _ _ isWeight _ => exact isWeight
    · cases h rule hmem with
      | mk _ hsegments _ _ => exact ih _ hmem _ hsegments
  symbolTarget name ih := by simp [Proper]
  dereference inner ih := by
    rintro _ (_ | ⟨_, h⟩ | _ | _ | _)
    exact all_dereference.mpr ⟨trivial, ih _ h⟩
  quoted text := by simp [Proper]
  pattern segments ih := by
    rintro _ (_ | _ | _ | ⟨_, h⟩ | _)
    exact all_pattern.mpr ⟨trivial, ih _ h⟩
  range range := by
    rintro _ (_ | _ | _ | _ | h)
    exact all_range.mpr h
  nil := by simp
  cons segment segments ihSegment ihRow := by
    intro levels h
    have h := List.forall_mem_cons.mp h
    exact all_cons.mpr ⟨ihSegment levels h.1, ihRow levels h.2⟩
  body segments ih := ih
  symbol name := by simp [Proper]

/-- A phrase is canonical where brackets have more levels too, and so is each part of it. -/
theorem canonical_of_le : Phrase.Inductive fun phrase => ∀ m n, m ≤ n →
    phrase.Canonical m → phrase.Canonical n ∧ phrase.All (·.Canonical n) where
  literal text := by
    rintro m n _ (hne | _ | _)
    have hself : Segment.Canonical n (.literal text) := .literal hne
    exact ⟨hself, all_literal.mpr hself⟩
  reference target modifiers ih := by
    rintro _ n hle (_ | h | _)
    obtain ⟨n, rfl⟩ := Nat.exists_eq_add_of_le' (Nat.one_le_of_lt hle)
    have hself : Segment.Canonical (n + 1) (.reference target modifiers) :=
      .reference (ih _ n (Nat.le_of_succ_le_succ hle) h).1
    exact ⟨hself, all_reference.mpr ⟨hself, (ih _ (n + 1) (Nat.le_of_lt hle) h).2⟩⟩
  choice branches ih := by
    rintro _ n hle (_ | _ | ⟨htwo, h⟩)
    obtain ⟨n, rfl⟩ := Nat.exists_eq_add_of_le' (Nat.one_le_of_lt hle)
    have hself : Segment.Canonical (n + 1) (.choice branches) := by
      refine .choice htwo fun rule hmem => ?_
      obtain ⟨hapart, hsegments, hweight, hkeeps⟩ := h rule hmem
      exact .mk hapart (ih _ hmem _ n (Nat.le_of_succ_le_succ hle) hsegments).1 hweight hkeeps
    refine ⟨hself, all_choice.mpr ⟨hself, fun rule hmem => ?_⟩⟩
    cases h rule hmem with
    | mk _ hsegments _ _ => exact (ih _ hmem _ (n + 1) (Nat.le_of_lt hle) hsegments).2
  symbolTarget name _ := by
    rintro m n _ (⟨hvalid, hnoRange⟩ | _ | _ | _ | _)
    have hself : Target.Canonical n (.symbol name) := .symbol hvalid hnoRange
    exact ⟨hself, all_symbolTarget.mpr ⟨hself, trivial⟩⟩
  dereference inner ih := by
    rintro m n hle (_ | ⟨hbracketed, h⟩ | _ | _ | _)
    obtain ⟨hinner, hall⟩ := ih m n hle h
    have hself : Target.Canonical n (.dereference inner) := .dereference hbracketed hinner
    exact ⟨hself, all_dereference.mpr ⟨hself, hall⟩⟩
  quoted text := by
    intro m n _ _
    have hself : Target.Canonical n (.quoted text) := .quoted
    exact ⟨hself, all_quoted.mpr hself⟩
  pattern segments ih := by
    rintro m n hle (_ | _ | _ | ⟨hapart, h⟩ | _)
    obtain ⟨hsegments, hall⟩ := ih m n hle h
    have hself : Target.Canonical n (.pattern segments) := .pattern hapart hsegments
    exact ⟨hself, all_pattern.mpr ⟨hself, hall⟩⟩
  range range := by
    rintro m n _ (_ | _ | _ | _ | hproper)
    have hself : Target.Canonical n (.range range) := .range hproper
    exact ⟨hself, all_range.mpr hself⟩
  nil := by simp [Phrase.Canonical]
  cons segment segments ihSegment ihRow := by
    intro m n hle h
    obtain ⟨hfirst, hrest⟩ := List.forall_mem_cons.mp h
    obtain ⟨hsegment, hall⟩ := ihSegment m n hle hfirst
    obtain ⟨hrow, hallRow⟩ := ihRow m n hle hrest
    exact ⟨List.forall_mem_cons.mpr ⟨hsegment, hrow⟩, all_cons.mpr ⟨hall, hallRow⟩⟩
  body segments ih := ih
  symbol name := fun _ _ _ _ => ⟨trivial, all_symbol.mpr trivial⟩

end Phrase

/-! ## Grammars by their parts -/

namespace Grammar

variable (g : Grammar)

/-- No name is computed. -/
def Direct : Prop := ∀ inner, .target (.dereference inner) ∉ g.parts

/-- Every choice has a branch that can be picked. -/
def CanChoose : Prop :=
  ∀ branches, .segment (.choice branches) ∈ g.parts →
    ∃ branch ∈ branches, Double.zero.lt branch.weight = true

/-- The part is no computed name. -/
def isDirectPart : Phrase → Bool
  | .target (.dereference _) => false
  | _ => true

/-- The part is no choice without a branch that can be picked. -/
def canChoosePart : Phrase → Bool
  | .segment (.choice branches) => branches.any fun branch => Double.zero.lt branch.weight
  | _ => true

theorem all_isDirectPart_iff : g.parts.all isDirectPart = true ↔ g.Direct := by
  rw [List.all_eq_true]
  constructor
  · intro h inner hpart
    cases h _ hpart
  · intro h part hpart
    unfold isDirectPart
    split
    · exact absurd hpart (h _)
    · rfl

theorem all_canChoosePart_iff : g.parts.all canChoosePart = true ↔ g.CanChoose := by
  rw [List.all_eq_true]
  constructor
  · intro h branches hpart
    simpa [canChoosePart] using h _ hpart
  · intro h part hpart
    unfold canChoosePart
    split
    · simpa using h _ hpart
    · rfl

instance : Decidable g.Direct := decidable_of_iff _ g.all_isDirectPart_iff

instance : Decidable g.CanChoose := decidable_of_iff _ g.all_canChoosePart_iff

end Grammar

end TextGrammar
