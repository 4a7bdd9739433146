-- The law of saving what was compiled. How deep the value of a rule nests follows from the levels
-- of its brackets, and brackets may have more levels than values: a grammar whose brackets keep to
-- fourteen levels can always be saved and loaded, and one with a level more may be lost.
import TextGrammar.Proofs.Acceptance
import TextGrammar.Proofs.ReadCanonical
import TextGrammar.Proofs.SavedGrammars

namespace TextGrammar

/-! ## Room for values -/

namespace Ron

mutual

/-- The writer counts no more levels than the reader. -/
theorem nesting_le_readingDepth : (value : Ron) → value.nesting ≤ value.readingDepth
  | .string _ | .char _ | .integer _ | .float _ => Nat.le_refl 0
  | .unit _ => Nat.zero_le 2
  | .variant _ payload => by
    have hpayload := nesting_le_readingDepth payload
    rw [nesting, readingDepth]
    omega
  | .record name fields => by
    have hfields := fieldNesting_le_fieldReadingDepth fields
    rw [nesting, readingDepth]
    split <;> omega
  | .list items => by
    have hitems := itemNesting_le_itemReadingDepth items
    rw [nesting, readingDepth]
    omega

theorem itemNesting_le_itemReadingDepth : (items : List Ron) →
    itemNesting items ≤ itemReadingDepth items
  | [] => Nat.le_refl 0
  | item :: items => by
    have hitem := nesting_le_readingDepth item
    have hitems := itemNesting_le_itemReadingDepth items
    rw [itemNesting, itemReadingDepth]
    omega

theorem fieldNesting_le_fieldReadingDepth : (fields : List RonField) →
    fieldNesting fields ≤ fieldReadingDepth fields
  | [] => Nat.le_refl 0
  | ⟨_, value⟩ :: fields => by
    have hvalue := nesting_le_readingDepth value
    have hfields := fieldNesting_le_fieldReadingDepth fields
    rw [fieldNesting, fieldReadingDepth]
    omega

end

/-- A list needs two levels more than its items. -/
theorem readingDepth_list {α : Type} {written : α → Ron} {xs : List α} {n : Nat}
    (h : ∀ x ∈ xs, (written x).readingDepth ≤ n) :
    (Ron.list (xs.map written)).readingDepth ≤ n + 2 := by
  have hitems : itemReadingDepth (xs.map written) ≤ n + 1 := by
    induction xs with
    | nil => exact Nat.zero_le _
    | cons x xs ih =>
      rw [List.map_cons, itemReadingDepth, Nat.max_le]
      exact ⟨Nat.succ_le_succ (h x List.mem_cons_self),
        ih fun y hy => h y (List.mem_cons_of_mem _ hy)⟩
  rw [readingDepth]
  omega

end Ron

/-! ## Levels of brackets -/

section

variable {levels most : Nat}

theorem readingDepth_row (h : ∀ segment, Segment.Canonical levels segment →
      segment.toRon.readingDepth ≤ most) {segments : List Segment}
    (hsegments : ∀ segment ∈ segments, Segment.Canonical levels segment) :
    (Ron.list (Segment.allToRon segments)).readingDepth ≤ most + 2 := by
  rw [allToRon_segments]
  exact Ron.readingDepth_list fun segment hsegment => h segment (hsegments segment hsegment)

theorem readingDepth_rule (h : ∀ segment, Segment.Canonical levels segment →
      segment.toRon.readingDepth ≤ most) {rule : Rule} (hrule : rule.Canonical levels) :
    rule.toRon.readingDepth ≤ most + 4 := by
  obtain ⟨_, hsegments, _, _⟩ := hrule
  have hrow := readingDepth_row h hsegments
  simp only [Rule.toRon, Ron.readingDepth, Ron.fieldReadingDepth, if_true] at hrow ⊢
  omega

theorem readingDepth_target (h : ∀ segment, Segment.Canonical levels segment →
      segment.toRon.readingDepth ≤ most) {target : Target} (htarget : target.Canonical levels) :
    target.toRon.readingDepth ≤ most + 4 ∨ target.toRon.readingDepth ≤ 5 := by
  cases htarget with
  | symbol | quoted => simp [Target.toRon, Ron.readingDepth]
  | dereference _ hinner =>
    have hdepth := h _ hinner
    simp only [Target.toRon, Ron.readingDepth]
    omega
  | pattern _ hsegments =>
    have hrow := readingDepth_row h hsegments
    rw [Target.toRon, Ron.readingDepth]
    omega
  | @range _ range _ =>
    cases range <;>
      simp [Target.toRon, DrawRange.toRon, Ron.readingDepth, Ron.fieldReadingDepth]

end

/-- A segment with so many levels of brackets needs eight levels of room for each, and two for the
literal in the innermost. -/
theorem readingDepth_segment (levels : Nat) (segment : Segment)
    (h : segment.Canonical levels) : segment.toRon.readingDepth ≤ 8 * levels + 2 := by
  induction levels generalizing segment with
  | zero =>
    cases h
    exact Nat.le_refl 2
  | succ levels ih =>
    cases h with
    | literal =>
      simp only [Segment.toRon, Ron.readingDepth]
      omega
    | @reference _ target modifiers htarget =>
      have hdepth := readingDepth_target ih htarget
      have hmodifiers : (Ron.list (modifiers.map fun m => .unit m.variantName)).readingDepth ≤ 4 :=
        Ron.readingDepth_list fun m _ => Nat.le_refl 2
      simp only [Segment.toRon, Ron.readingDepth, Ron.fieldReadingDepth, if_true] at hmodifiers ⊢
      omega
    | @choice _ branches _ hbranches =>
      have hrules : (Ron.list (branches.map Rule.toRon)).readingDepth ≤ 8 * levels + 8 :=
        Ron.readingDepth_list fun rule hrule => readingDepth_rule ih (hbranches rule hrule)
      rw [Segment.toRon, allToRon_rules, Ron.readingDepth]
      omega

/-- The room that a grammar needs whose rules have so many levels of brackets. -/
theorem readingDepth_grammar {g : Grammar} {levels : Nat}
    (h : ∀ symbol ∈ g.symbols, ∀ rule ∈ symbol.rules, rule.Canonical levels) :
    g.toRon.readingDepth ≤ 8 * levels + 12 := by
  have hsymbols : ∀ symbol ∈ g.symbols, symbol.toRon.readingDepth ≤ 8 * levels + 10 := by
    intro symbol hsymbol
    have hrules : (Ron.list (symbol.rules.map Rule.toRon)).readingDepth ≤ 8 * levels + 8 :=
      Ron.readingDepth_list fun rule hrule =>
        readingDepth_rule (readingDepth_segment levels) (h symbol hsymbol rule hrule)
    rw [← allToRon_rules] at hrules
    simp only [Symbol.toRon, Ron.readingDepth, Ron.fieldReadingDepth, if_true] at hrules ⊢
    omega
  exact Ron.readingDepth_list hsymbols

/-! ## Numbers of lines -/

theorem length_rawLines_le (cs : List Char) : (rawLines cs).length ≤ cs.length := by
  fun_induction rawLines cs with
  | case1 => exact Nat.le_refl 0
  | case2 cs ih => exact Nat.succ_le_succ ih
  | case3 cs ih => simp only [List.length_cons]; omega
  | case4 c cs _ _ hlines ih => simp
  | case5 c cs _ _ line lines hlines ih =>
    rw [hlines] at ih
    simp only [List.length_cons] at ih ⊢
    omega

theorem number_lt_of_mem_ofRaw {number : Nat} {raws : List (List Char)} {line : Line}
    (h : line ∈ Line.ofRaw number raws) : line.number < number + raws.length := by
  induction raws generalizing number with
  | nil => cases h
  | cons raw raws ih =>
    rw [List.length_cons]
    unfold Line.ofRaw at h
    split at h
    · rcases List.mem_cons.mp h with rfl | h
      · simp
      · have hrest := ih h
        omega
    · have hrest := ih h
      omega

/-- A source has no more lines than characters. -/
theorem number_le_of_mem_blocks {source : String} {block : Block}
    (h : block ∈ (outline source).blocks) : block.number ≤ source.length := by
  have hmem : block.heading ∈ plainLines source := by
    rw [← lines_outline, Outline.lines, List.mem_append]
    exact Or.inr (List.mem_flatMap.mpr ⟨block, h, List.mem_cons_self⟩)
  have hlt := number_lt_of_mem_ofRaw hmem
  have hlength := length_rawLines_le source.toList
  rw [String.length_toList] at hlength
  have hnumber : block.heading.number = block.number := rfl
  omega

theorem line_le_of_compile {source : String} {g : Grammar} (h : Grammar.compile source = .ok g)
    {symbol : Symbol} (hsymbol : symbol ∈ g.symbols) : symbol.line ≤ source.length := by
  obtain ⟨block, hblock, hmakes⟩ := exists_of_mem_of_forall₂ (makes_of_compile h) hsymbol
  rw [hmakes.line]
  exact number_le_of_mem_blocks hblock

/-! ## The law -/

/-- What was compiled is saved and loaded if and only if there is room to read it, and what is
loaded is what was compiled. There is room whenever brackets keep to fourteen levels. -/
theorem compiled_grammars_are_loaded_as_they_were {source : String} {g : Grammar}
    (hlength : source.length < UInt64.size) (hcompile : Grammar.compile source = .ok g) :
    ((∃ text, g.save? = some text ∧ Grammar.load? text = some g) ↔
      g.toRon.readingDepth ≤ Ron.nestingLimit) ∧
    ((∀ symbol ∈ g.symbols, ∀ rule ∈ symbol.rules, rule.Canonical 14) →
      g.toRon.readingDepth ≤ Ron.nestingLimit) := by
  have hlines : ∀ symbol ∈ g.symbols, symbol.line < UInt64.size := fun symbol hsymbol =>
    Nat.lt_of_le_of_lt (line_le_of_compile hcompile hsymbol) hlength
  refine ⟨⟨?_, fun hroom => ?_⟩, fun hlevels => ?_⟩
  · rintro ⟨text, hsave, hload⟩
    by_contra hdeep
    rw [load?_of_save? hlines hsave, if_neg hdeep] at hload
    exact absurd hload (by simp)
  · have hwritten := Nat.le_trans (Ron.nesting_le_readingDepth g.toRon) hroom
    have hsave := (save?_eq g).trans (if_pos hwritten)
    exact ⟨_, hsave, (load?_of_save? hlines hsave).trans (if_pos hroom)⟩
  · exact Nat.le_trans (readingDepth_grammar hlevels) (by decide)

/-- A source with brackets of every kind in one another. -/
def nestSource : String := "nest\n  [a|[[nest].s|\"[b|[1-3]]\"] ^2]\n"

theorem nest_is_loaded_as_it_was : nestSource.length < UInt64.size ∧
    ∃ g text, Grammar.compile nestSource = .ok g ∧ g.save? = some text ∧
      Grammar.load? text = some g := by
  have hlength : nestSource.length < UInt64.size := by decide
  have hcheck : (Grammar.compile nestSource).toOption.any
      (fun g => decide (g.toRon.readingDepth ≤ Ron.nestingLimit)) = true := by decide +kernel
  obtain ⟨g, hcompile, hroom⟩ := exists_of_any hcheck
  obtain ⟨hloaded, _⟩ := compiled_grammars_are_loaded_as_they_were hlength hcompile
  obtain ⟨text, hsave, hload⟩ := hloaded.mpr (of_decide_eq_true hroom)
  exact ⟨hlength, g, text, hcompile, hsave, hload⟩

/-- Fifteen choices in one another. -/
def towerSource : String := "tower\n  [a|[a|[a|[a|[a|[a|[a|[a|[a|[a|[a|[a|[a|[a|[a|a]]]]]]]]]]]]]]]\n"

/-- A level more than fourteen, and a grammar that was saved is lost. -/
theorem tower_is_saved_and_lost : ∃ g text, Grammar.compile towerSource = .ok g ∧
    g.save? = some text ∧ Grammar.load? text = none := by
  have hcheck : (Grammar.compile towerSource).toOption.any
      (fun g => decide (g.toRon.nesting ≤ Ron.nestingLimit ∧
        ¬g.toRon.readingDepth ≤ Ron.nestingLimit)) = true := by decide +kernel
  obtain ⟨g, hcompile, hdeep⟩ := exists_of_any hcheck
  obtain ⟨hwritten, hroom⟩ := of_decide_eq_true hdeep
  have hlines : ∀ symbol ∈ g.symbols, symbol.line < UInt64.size := fun symbol hsymbol =>
    Nat.lt_of_le_of_lt (line_le_of_compile hcompile hsymbol) (by decide)
  have hsave := (save?_eq g).trans (if_pos hwritten)
  exact ⟨g, _, hcompile, hsave, (load?_of_save? hlines hsave).trans (if_neg hroom)⟩

end TextGrammar
