-- The productive symbols: the passes over a grammar end at the least set of names that is closed
-- under "has a rule of positive weight that finishes with the set". Each pass learns only what a
-- closed set holds, and a pass that brings nothing new leaves a closed set behind.
import Mathlib.Data.List.Perm.Subperm
import Mathlib.Order.Bounds.Basic
import TextGrammar.Lint
import TextGrammar.Proofs.Phrases

namespace TextGrammar

/-! ## Phrases that finish -/

/-- The phrase finishes when the symbols do whose names have the property. -/
inductive Finishes (P : String → Prop) : Phrase → Prop
  | literal (text : String) : Finishes P (.segment (.literal text))
  | reference {target : Target} (modifiers : List Modifier)
      (ofTarget : Finishes P (.target target)) :
      Finishes P (.segment (.reference target modifiers))
  | choice {branches : List Rule} {rule : Rule} (mem : rule ∈ branches)
      (positive : Double.zero.lt rule.weight = true) (ofRule : Finishes P (.body rule.segments)) :
      Finishes P (.segment (.choice branches))
  | symbolTarget {name : String} (ofSymbol : Finishes P (.symbol name)) :
      Finishes P (.target (.symbol name))
  | dereference {inner : Segment} (ofInner : Finishes P (.segment inner)) :
      Finishes P (.target (.dereference inner))
  | quoted (text : String) : Finishes P (.target (.quoted text))
  | pattern {segments : List Segment} (ofBody : Finishes P (.body segments)) :
      Finishes P (.target (.pattern segments))
  | range (range : DrawRange) : Finishes P (.target (.range range))
  | nil : Finishes P (.row [])
  | cons {segment : Segment} {segments : List Segment} (ofSegment : Finishes P (.segment segment))
      (ofRow : Finishes P (.row segments)) : Finishes P (.row (segment :: segments))
  | body {segments : List Segment} (ofRow : Finishes P (.row segments)) :
      Finishes P (.body segments)
  | symbol {name : String} (known : P name) : Finishes P (.symbol name)

/-- The symbol has a rule that can be picked and finishes. -/
def Symbol.CanFinish (symbol : Symbol) (P : String → Prop) : Prop :=
  ∃ rule ∈ symbol.rules, Double.zero.lt rule.weight = true ∧ Finishes P (.body rule.segments)

theorem Finishes.mono {P Q : String → Prop} {phrase : Phrase} (h : Finishes P phrase)
    (hPQ : ∀ name, P name → Q name) : Finishes Q phrase := by
  induction h with
  | literal text => exact .literal text
  | reference modifiers _ ih => exact .reference modifiers ih
  | choice mem positive _ ih => exact .choice mem positive ih
  | symbolTarget _ ih => exact .symbolTarget ih
  | dereference _ ih => exact .dereference ih
  | quoted text => exact .quoted text
  | pattern _ ih => exact .pattern ih
  | range range => exact .range range
  | nil => exact .nil
  | cons _ _ ihSegment ihRow => exact .cons ihSegment ihRow
  | body _ ih => exact .body ih
  | symbol known => exact .symbol (hPQ _ known)

theorem Symbol.CanFinish.mono {P Q : String → Prop} {symbol : Symbol} (h : symbol.CanFinish P)
    (hPQ : ∀ name, P name → Q name) : symbol.CanFinish Q := by
  obtain ⟨rule, hmem, hpositive, hfinishes⟩ := h
  exact ⟨rule, hmem, hpositive, hfinishes.mono hPQ⟩

section

variable (known : String → Bool)

/-- What the check of a phrase says. -/
def Phrase.finishesWith : Phrase → Bool
  | .segment s => s.finishesWith known
  | .target t => t.finishesWith known
  | .row ss => Segment.allFinishWith known ss
  | .body ss => Segment.allFinishWith known ss
  | .symbol name => known name

variable {known}

theorem anyFinishesWith_iff {rules : List Rule} : Rule.anyFinishesWith known rules = true ↔
    ∃ rule ∈ rules, Double.zero.lt rule.weight = true ∧
      (Phrase.body rule.segments).finishesWith known = true := by
  induction rules with
  | nil => simp [Rule.anyFinishesWith]
  | cons rule rules ih =>
    obtain ⟨segments, weight⟩ := rule
    simp [Rule.anyFinishesWith, Rule.finishesWith, ih, Phrase.finishesWith]

/-- The check tells the phrases that finish. -/
theorem finishesWith_iff : Phrase.Inductive fun phrase =>
    (phrase.finishesWith known = true ↔ Finishes (fun name => known name = true) phrase) where
  literal text := by
    simp only [Phrase.finishesWith, Segment.finishesWith, true_iff]
    exact .literal text
  reference target modifiers ih := by
    simp only [Phrase.finishesWith, Segment.finishesWith] at ih ⊢
    rw [ih]
    constructor
    · exact .reference modifiers
    · intro h
      cases h with
      | reference _ htarget => exact htarget
  choice branches ih := by
    rw [Phrase.finishesWith, Segment.finishesWith, anyFinishesWith_iff]
    constructor
    · rintro ⟨rule, hmem, hpositive, hrule⟩
      exact .choice hmem hpositive ((ih rule hmem).mp hrule)
    · intro h
      cases h with
      | choice hmem hpositive hrule => exact ⟨_, hmem, hpositive, (ih _ hmem).mpr hrule⟩
  symbolTarget name ih := by
    simp only [Phrase.finishesWith, Target.finishesWith] at ih ⊢
    rw [ih]
    constructor
    · exact .symbolTarget
    · intro h
      cases h with
      | symbolTarget hsymbol => exact hsymbol
  dereference inner ih := by
    simp only [Phrase.finishesWith, Target.finishesWith] at ih ⊢
    rw [ih]
    constructor
    · exact .dereference
    · intro h
      cases h with
      | dereference hinner => exact hinner
  quoted text := by
    simp only [Phrase.finishesWith, Target.finishesWith, true_iff]
    exact .quoted text
  pattern segments ih := by
    simp only [Phrase.finishesWith, Target.finishesWith] at ih ⊢
    rw [ih]
    constructor
    · exact .pattern
    · intro h
      cases h with
      | pattern hbody => exact hbody
  range range := by
    simp only [Phrase.finishesWith, Target.finishesWith, true_iff]
    exact .range range
  nil := by
    simp only [Phrase.finishesWith, Segment.allFinishWith, true_iff]
    exact .nil
  cons segment segments ihSegment ihRow := by
    simp only [Phrase.finishesWith, Segment.allFinishWith, Bool.and_eq_true] at ihSegment ihRow ⊢
    rw [ihSegment, ihRow]
    constructor
    · rintro ⟨hsegment, hrow⟩
      exact .cons hsegment hrow
    · intro h
      cases h with
      | cons hsegment hrow => exact ⟨hsegment, hrow⟩
  body segments ih := by
    simp only [Phrase.finishesWith] at ih ⊢
    rw [ih]
    constructor
    · exact .body
    · intro h
      cases h with
      | body hrow => exact hrow
  symbol name := by
    constructor
    · exact fun hknown => .symbol hknown
    · intro h
      cases h with
      | symbol hknown => exact hknown

end

namespace Grammar

variable {g : Grammar}

/-! ## Closed sets of names -/

/-- The name is in the set, or no symbol is declared under it. -/
def InOrUndeclared (g : Grammar) (names : Set String) (name : String) : Prop :=
  name ∈ names ∨ g.contains name = false

/-- The set holds the name of every symbol that can finish, when the names of the set finish and
those that are not declared count as finishing. -/
def Closed (g : Grammar) (names : Set String) : Prop :=
  ∀ symbol ∈ g.symbols, symbol.CanFinish (g.InOrUndeclared names) → symbol.name ∈ names

/-- The names of a list. -/
def nameSet (known : List String) : Set String := {name | name ∈ known}

theorem InOrUndeclared.mono {names others : Set String} (h : names ⊆ others) {name : String}
    (hname : g.InOrUndeclared names name) : g.InOrUndeclared others name :=
  hname.imp (fun hmem => h hmem) id

/-! ## One pass -/

theorem any_finishesWith_iff {known : List String} {symbol : Symbol} :
    (symbol.rules.any (Rule.finishesWith fun name => known.contains name || !g.contains name)) =
      true ↔ symbol.CanFinish (g.InOrUndeclared (nameSet known)) := by
  have hknown : (fun name => (known.contains name || !g.contains name) = true) =
      g.InOrUndeclared (nameSet known) := by
    funext name
    simp [InOrUndeclared, nameSet]
  rw [List.any_eq_true, Symbol.CanFinish]
  refine exists_congr fun rule => and_congr_right fun _ => ?_
  obtain ⟨segments, weight⟩ := rule
  rw [Rule.finishesWith, Bool.and_eq_true, ← hknown]
  exact and_congr_right fun _ => finishesWith_iff.all (.body segments)

/-- A symbol adds its name, or nothing. -/
theorem learn_cases (g : Grammar) (known : List String) (symbol : Symbol) :
    (g.learn known symbol = known ∧
      (symbol.name ∈ known ∨ ¬symbol.CanFinish (g.InOrUndeclared (nameSet known)))) ∨
    (g.learn known symbol = symbol.name :: known ∧ symbol.name ∉ known ∧
      symbol.CanFinish (g.InOrUndeclared (nameSet known))) := by
  unfold learn
  by_cases hknown : known.contains symbol.name
  · rw [if_pos hknown]
    exact Or.inl ⟨rfl, Or.inl (List.contains_iff_mem.mp hknown)⟩
  · rw [if_neg hknown]
    by_cases hfinishes : symbol.rules.any
        (Rule.finishesWith fun name => known.contains name || !g.contains name)
    · rw [if_pos hfinishes]
      exact Or.inr ⟨rfl, fun hmem => hknown (List.contains_iff_mem.mpr hmem),
        any_finishesWith_iff.mp hfinishes⟩
    · rw [if_neg hfinishes]
      exact Or.inl ⟨rfl, Or.inr fun hcan => hfinishes (any_finishesWith_iff.mpr hcan)⟩

theorem sublist_learn (g : Grammar) (known : List String) (symbol : Symbol) :
    known.Sublist (g.learn known symbol) := by
  rcases g.learn_cases known symbol with ⟨h, _⟩ | ⟨h, _⟩ <;> rw [h]
  exact List.sublist_cons_self _ _

/-- Nothing that is known is forgotten. -/
theorem sublist_foldl_learn (g : Grammar) (symbols : List Symbol) (known : List String) :
    known.Sublist (symbols.foldl g.learn known) := by
  induction symbols generalizing known with
  | nil => exact List.Sublist.refl _
  | cons symbol symbols ih => exact (g.sublist_learn known symbol).trans (ih _)

theorem sublist_pass (g : Grammar) (known : List String) : known.Sublist (g.pass known) :=
  g.sublist_foldl_learn g.symbols known

/-- A symbol that can finish is known after the pass, whatever stands before it. -/
theorem mem_foldl_learn {symbols : List Symbol} {known : List String} {symbol : Symbol}
    (hmem : symbol ∈ symbols) (h : symbol.CanFinish (g.InOrUndeclared (nameSet known))) :
    symbol.name ∈ symbols.foldl g.learn known := by
  induction symbols generalizing known with
  | nil => cases hmem
  | cons first symbols ih =>
    rw [List.foldl_cons]
    rcases List.mem_cons.mp hmem with rfl | hmem
    · apply (g.sublist_foldl_learn symbols _).subset
      rcases g.learn_cases known symbol with ⟨hlearn, hname | hcannot⟩ | ⟨hlearn, _⟩ <;> rw [hlearn]
      · exact hname
      · exact absurd h hcannot
      · exact List.mem_cons_self
    · refine ih hmem (h.mono fun name hname => ?_)
      exact hname.mono fun _ hknown => (g.sublist_learn known first).subset hknown

/-- What is known after a pass that brings nothing new is closed. -/
theorem closed_of_pass {known : List String} (h : g.pass known = known) :
    g.Closed (nameSet known) := by
  intro symbol hmem hcan
  have hlearned := mem_foldl_learn hmem hcan
  change symbol.name ∈ g.pass known at hlearned
  rwa [h] at hlearned

/-- What symbols add one by one has every property that each addition keeps. -/
theorem keeps_foldl_learn {P : List String → Prop} {symbols : List Symbol}
    (hlearn : ∀ known, ∀ symbol ∈ symbols, P known → P (g.learn known symbol))
    {known : List String} (hknown : P known) : P (symbols.foldl g.learn known) := by
  induction symbols generalizing known with
  | nil => exact hknown
  | cons symbol symbols ih =>
    have hnext := hlearn known symbol List.mem_cons_self hknown
    exact ih (fun known s hs => hlearn known s (List.mem_cons_of_mem _ hs)) hnext

/-- A pass adds only names that a closed set holds already. -/
theorem pass_subset_of_closed {names : Set String} (hclosed : g.Closed names) {known : List String}
    (h : nameSet known ⊆ names) : nameSet (g.pass known) ⊆ names := by
  refine keeps_foldl_learn (P := fun known => nameSet known ⊆ names) ?_ h
  intro known symbol hmem hknown
  rcases g.learn_cases known symbol with ⟨hlearn, _⟩ | ⟨hlearn, _, hcan⟩ <;> rw [hlearn]
  · exact hknown
  · intro name hname
    rcases List.mem_cons.mp hname with rfl | hname
    · exact hclosed symbol hmem (hcan.mono fun _ h => h.mono hknown)
    · exact hknown hname

/-- Names of symbols, each once. -/
structure Listed (g : Grammar) (known : List String) : Prop where
  nodup : known.Nodup
  declared : known ⊆ g.symbols.map (·.name)

theorem Listed.pass {known : List String} (h : g.Listed known) : g.Listed (g.pass known) := by
  refine keeps_foldl_learn (fun known symbol hmem hknown => ?_) h
  rcases g.learn_cases known symbol with ⟨hlearn, _⟩ | ⟨hlearn, hnew, _⟩ <;> rw [hlearn]
  · exact hknown
  · exact ⟨List.nodup_cons.mpr ⟨hnew, hknown.nodup⟩,
      List.cons_subset.mpr ⟨List.mem_map_of_mem hmem, hknown.declared⟩⟩

/-- There are no more names than symbols. -/
theorem Listed.length_le {known : List String} (h : g.Listed known) :
    known.length ≤ g.symbols.length := by
  have hle := (h.nodup.subperm h.declared).length_le
  rwa [List.length_map] at hle

/-! ## All passes -/

/-- With as many passes as names may be missing, the last one brings nothing new. -/
theorem pass_passesFrom {known : List String} {passes : Nat} (h : g.Listed known)
    (henough : g.symbols.length ≤ known.length + passes) :
    g.pass (g.passesFrom known passes) = g.passesFrom known passes := by
  induction passes generalizing known with
  | zero =>
    have hbound := h.pass.length_le
    have hgrows := (g.sublist_pass known).length_le
    exact ((g.sublist_pass known).eq_of_length (by omega)).symm
  | succ passes ih =>
    have hgrows := (g.sublist_pass known).length_le
    unfold passesFrom
    dsimp only
    split
    · rename_i hsame
      exact ((g.sublist_pass known).eq_of_length hsame.symm).symm
    · exact ih h.pass (by omega)

theorem passesFrom_subset_of_closed {names : Set String} (hclosed : g.Closed names)
    {known : List String} {passes : Nat} (h : nameSet known ⊆ names) :
    nameSet (g.passesFrom known passes) ⊆ names := by
  induction passes generalizing known with
  | zero => exact h
  | succ passes ih =>
    unfold passesFrom
    dsimp only
    split
    · exact h
    · exact ih (pass_subset_of_closed hclosed h)

/-- The productive names are the least closed set. -/
theorem isLeast_productive (g : Grammar) :
    IsLeast {names : Set String | g.Closed names} (nameSet g.productive) := by
  constructor
  · apply closed_of_pass
    exact pass_passesFrom ⟨List.nodup_nil, List.nil_subset _⟩ (Nat.le_add_left _ _)
  · intro names hclosed
    exact passesFrom_subset_of_closed hclosed (fun name hname => nomatch hname)

theorem closed_perm {other : Grammar} (h : other.symbols.Perm g.symbols) (names : Set String) :
    other.Closed names ↔ g.Closed names := by
  have hcontains : other.contains = g.contains := by
    funext name
    rw [Bool.eq_iff_iff, contains_iff, contains_iff]
    exact exists_congr fun s => and_congr_left fun _ => h.mem_iff
  have hknown : other.InOrUndeclared names = g.InOrUndeclared names := by
    funext name
    rw [InOrUndeclared, InOrUndeclared, hcontains]
  unfold Closed
  rw [hknown]
  exact forall_congr' fun s => imp_congr_left h.mem_iff

/-- The order of declaration makes no difference. -/
theorem mem_productive_perm {other : Grammar} (h : other.symbols.Perm g.symbols) (name : String) :
    name ∈ other.productive ↔ name ∈ g.productive := by
  have hclosed : {names : Set String | other.Closed names} = {names | g.Closed names} := by
    ext names
    exact closed_perm h names
  have hleast := other.isLeast_productive
  rw [hclosed] at hleast
  exact Set.ext_iff.mp (hleast.unique g.isLeast_productive) name

/-! ## What is reported -/

theorem mem_undefinedIn {symbol : Symbol} {name : String} : name ∈ g.undefinedIn symbol ↔
    (∃ rule ∈ symbol.rules, name ∈ rule.references) ∧ g.contains name = false := by
  simp [undefinedIn, List.mem_eraseDups]

theorem undefinedReference_mem_lint {name target : String} {line : Nat} :
    LintIssue.undefinedReference name line target ∈ g.lint ↔
      ∃ symbol ∈ g.symbols, target ∈ g.undefinedIn symbol ∧ symbol.name = name ∧
        symbol.line = line := by
  simp [lint, and_assoc, and_comm, and_left_comm]

theorem zeroWeight_mem_lint {name : String} {line : Nat} :
    LintIssue.zeroWeight name line ∈ g.lint ↔
      ∃ symbol ∈ g.symbols, weighsNothing symbol = true ∧ symbol.name = name ∧
        symbol.line = line := by
  simp [lint, and_assoc]

theorem noExit_mem_lint {name : String} {line : Nat} :
    LintIssue.noExit name line ∈ g.lint ↔
      ∃ symbol ∈ g.symbols, symbol.name ∉ g.productive ∧
        (∀ other ∈ g.symbols, weighsNothing other = true → other.name ≠ symbol.name) ∧
        symbol.name = name ∧ symbol.line = line := by
  simp [lint, and_assoc]

end Grammar

end TextGrammar
