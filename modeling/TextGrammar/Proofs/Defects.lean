-- The laws of the defects of a source. What is wrong with each line can be told from the headings
-- and rules around it. Validation finds all of that, line by line; compiling stops at the first.
import TextGrammar.Proofs.CompiledBlocks

namespace TextGrammar

/-! ## What is wrong with a source -/

/-- The error is that a rule is indented otherwise than the first of its block. -/
def Outline.Misindented (o : Outline) (error : SyntaxError) : Prop :=
  ∃ block ∈ o.blocks, ∃ rule ∈ block.rules, rule.indent ≠ block.indent ∧
    ⟨rule.number, some 1, .badIndentation block.name block.indent rule.indent⟩ = error

/-- What is wrong with the lines of an outline. -/
inductive Outline.Defect (o : Outline) : SyntaxError → Prop
  | badIndentation {error : SyntaxError} (misindented : o.Misindented error) : o.Defect error
  /-- No heading stands above a rule. -/
  | ruleBeforeSymbol {rule : RuleLine} (mem : rule ∈ o.stray) :
    o.Defect ⟨rule.number, some (rule.indent + 1), .ruleBeforeSymbol⟩
  /-- A rule below a heading, even a rejected one, is well indented and cannot be read. -/
  | unreadable {block : Block} {rule : RuleLine} {fault : Fault} (block_mem : block ∈ o.blocks)
      (rule_mem : rule ∈ block.rules) (indented : rule.indent = block.indent)
      (unread : Rule.read (rule.indent + 1) rule.text.toList = .error fault) :
    o.Defect (fault.onLine rule.number)
  | invalidSymbolName {block : Block} (mem : block ∈ o.blocks)
      (invalid : isSymbolName block.name.toList = false) :
    o.Defect ⟨block.number, some 1, .invalidSymbolName block.name⟩
  /-- An earlier heading has declared the name. -/
  | duplicateSymbol {above below : List Block} {block : Block}
      (split : o.blocks = above ++ block :: below)
      (valid : isSymbolName block.name.toList = true)
      (declared : ∃ earlier ∈ above, earlier.name = block.name) :
    o.Defect ⟨block.number, some 1, .duplicateSymbol block.name⟩
  /-- No rule follows a heading that is accepted. -/
  | emptySymbol {above below : List Block} {block : Block}
      (split : o.blocks = above ++ block :: below)
      (valid : isSymbolName block.name.toList = true)
      (fresh : ∀ earlier ∈ above, earlier.name ≠ block.name) (empty : block.rules = []) :
    o.Defect ⟨block.number, none, .emptySymbol block.name⟩

/-! ## One line -/

namespace Block

variable {above : List Block} {block : Block} {error : SyntaxError}

theorem read_eq_error {rule : RuleLine} : block.read rule = .error error ↔
    (rule.indent ≠ block.indent ∧ block.misindented rule = error) ∨
      rule.indent = block.indent ∧ ∃ fault,
        Rule.read (rule.indent + 1) rule.text.toList = .error fault ∧
          fault.onLine rule.number = error := by
  unfold read RuleLine.read
  by_cases hindent : rule.indent = block.indent
  · simp [hindent, mapError_eq_error]
  · simp [hindent]

theorem nameDefect?_eq_some : block.nameDefect? above = some error ↔
    (isSymbolName block.name.toList = false ∧
      ⟨block.number, some 1, .invalidSymbolName block.name⟩ = error) ∨
    isSymbolName block.name.toList = true ∧ (∃ earlier ∈ above, earlier.name = block.name) ∧
      ⟨block.number, some 1, .duplicateSymbol block.name⟩ = error := by
  unfold nameDefect?
  cases isSymbolName block.name.toList with
  | false => simp
  | true => by_cases hearlier : ∃ earlier ∈ above, earlier.name = block.name <;> simp [hearlier]

theorem emptyDefect?_eq_some : block.emptyDefect? = some error ↔
    block.rules = [] ∧ ⟨block.number, none, .emptySymbol block.name⟩ = error := by
  unfold emptyDefect?
  by_cases hempty : block.rules = [] <;> simp [hempty]

/-- A defect stands on the line that it is a defect of. -/
theorem line_of_read {rule : RuleLine} (h : block.read rule = .error error) :
    error.line = rule.number := by
  rcases read_eq_error.mp h with ⟨_, rfl⟩ | ⟨_, fault, _, rfl⟩ <;> rfl

theorem line_of_headingDefect? (h : block.headingDefect? above = some error) :
    error.line = block.number := by
  rcases Option.or_eq_some_iff.mp h with h | ⟨_, h⟩
  · rcases nameDefect?_eq_some.mp h with ⟨_, rfl⟩ | ⟨_, _, rfl⟩ <;> rfl
  · obtain ⟨_, rfl⟩ := emptyDefect?_eq_some.mp h
    rfl

end Block

/-! ## The order of the defects -/

namespace Block

/-- Each line has one defect at most. -/
theorem lines_defectsOn (block : Block) (rules : List RuleLine) :
    ((block.defectsOn rules).map (·.line)).Sublist (rules.map (·.number)) := by
  induction rules with
  | nil => exact .slnil
  | cons rule rules ih =>
    rw [defectsOn_cons]
    cases hread : block.read rule with
    | ok made => exact ih.cons _
    | error error =>
      simp only [errorOf?, Option.toList_some, List.singleton_append, List.map_cons,
        line_of_read hread]
      exact ih.cons_cons _

theorem lines_defects (above : List Block) (block : Block) :
    (((block.headingDefect? above).toList ++ block.defectsOn block.rules).map (·.line)).Sublist
      (block.lines.map (·.number)) := by
  have hrules : (block.rules.map RuleLine.line).map (·.number) = block.rules.map (·.number) := by
    rw [List.map_map]
    rfl
  rw [lines, List.map_cons, hrules]
  cases hheading : block.headingDefect? above with
  | none => exact (block.lines_defectsOn block.rules).cons _
  | some error =>
    simp only [Option.toList_some, List.singleton_append, List.map_cons,
      line_of_headingDefect? hheading]
    exact (block.lines_defectsOn block.rules).cons_cons _

end Block

theorem lines_blockDefects (above blocks : List Block) :
    ((blockDefects above blocks).map (·.line)).Sublist
      ((blocks.flatMap Block.lines).map (·.number)) := by
  induction blocks generalizing above with
  | nil => exact .slnil
  | cons block blocks ih =>
    have happend := (block.lines_defects above).append (ih (above ++ [block]))
    rwa [← List.map_append, ← List.map_append] at happend

theorem Outline.lines_defects (o : Outline) :
    (o.defects.map (·.line)).Sublist (o.lines.map (·.number)) := by
  have hstray : (o.stray.map RuleLine.strayError).map (·.line) =
      (o.stray.map RuleLine.line).map (·.number) := by
    rw [List.map_map, List.map_map]
    rfl
  rw [defects, lines, List.map_append, List.map_append, hstray]
  exact (List.Sublist.refl _).append (lines_blockDefects [] o.blocks)

/-- The lines with defects rise, as the lines of a source do. -/
theorem pairwise_defects (source : String) :
    (outline source).defects.Pairwise (·.line < ·.line) := by
  have hlines := pairwise_plainLines source
  rw [← lines_outline] at hlines
  exact List.pairwise_map.mp (hlines.sublist (outline source).lines_defects)

/-! ## Which defects there are -/

/-- A heading has the defect that it has below all the blocks above it; a rule has its own. -/
theorem mem_blockDefects {above blocks : List Block} {error : SyntaxError} :
    error ∈ blockDefects above blocks ↔
      (∃ before block after, blocks = before ++ block :: after ∧
        block.headingDefect? (above ++ before) = some error) ∨
      ∃ block ∈ blocks, ∃ rule ∈ block.rules, block.read rule = .error error := by
  induction blocks generalizing above with
  | nil => simp [blockDefects]
  | cons first blocks ih =>
    have hrules : error ∈ first.defectsOn first.rules ↔
        ∃ rule ∈ first.rules, first.read rule = .error error := by
      simp [Block.defectsOn, errorOf?_eq_some]
    -- The block is the first one, with nothing more above it, or stands among the others.
    rw [blockDefects, List.mem_append, List.mem_append, Option.mem_toList, hrules, ih]
    constructor
    · rintro ((h | h) | ⟨before, block, after, rfl, h⟩ | ⟨block, hblock, h⟩)
      · exact Or.inl ⟨[], first, blocks, rfl, by rwa [List.append_nil]⟩
      · exact Or.inr ⟨first, List.mem_cons_self, h⟩
      · exact Or.inl ⟨first :: before, block, after, rfl, by simpa using h⟩
      · exact Or.inr ⟨block, List.mem_cons_of_mem _ hblock, h⟩
    · rintro (⟨before, block, after, hsplit, h⟩ | ⟨block, hblock, h⟩)
      · cases before with
        | nil =>
          cases hsplit
          exact Or.inl (Or.inl (by rwa [List.append_nil] at h))
        | cons _ before =>
          cases hsplit
          exact Or.inr (Or.inl ⟨before, block, after, rfl, by simpa using h⟩)
      · rcases List.mem_cons.mp hblock with rfl | hblock
        · exact Or.inl (Or.inr h)
        · exact Or.inr (Or.inr ⟨block, hblock, h⟩)

namespace Outline

variable {o : Outline} {error : SyntaxError}

theorem mem_defects_iff : error ∈ o.defects ↔
    (∃ rule ∈ o.stray, rule.strayError = error) ∨
    (∃ above block below, o.blocks = above ++ block :: below ∧
      block.headingDefect? above = some error) ∨
    ∃ block ∈ o.blocks, ∃ rule ∈ block.rules, block.read rule = .error error := by
  simp [defects, mem_blockDefects]

theorem defect_of_heading {above below : List Block} {block : Block}
    (hsplit : o.blocks = above ++ block :: below)
    (h : block.headingDefect? above = some error) : o.Defect error := by
  rcases Option.or_eq_some_iff.mp h with h | ⟨hname, h⟩
  · rcases Block.nameDefect?_eq_some.mp h with ⟨hinvalid, rfl⟩ | ⟨hvalid, hearlier, rfl⟩
    · exact .invalidSymbolName (by simp [hsplit]) hinvalid
    · exact .duplicateSymbol hsplit hvalid hearlier
  · obtain ⟨hvalid, hfresh⟩ := Block.nameDefect?_eq_none.mp hname
    obtain ⟨hempty, rfl⟩ := Block.emptyDefect?_eq_some.mp h
    exact .emptySymbol hsplit hvalid hfresh hempty

theorem defect_of_rule {block : Block} {rule : RuleLine} (hblock : block ∈ o.blocks)
    (hrule : rule ∈ block.rules) (h : block.read rule = .error error) : o.Defect error := by
  rcases Block.read_eq_error.mp h with ⟨hindent, rfl⟩ | ⟨hindent, fault, hfault, rfl⟩
  · exact .badIndentation ⟨block, hblock, rule, hrule, hindent, rfl⟩
  · exact .unreadable hblock hrule hindent hfault

theorem mem_defects_of_defect (h : o.Defect error) : error ∈ o.defects := by
  rw [mem_defects_iff]
  cases h with
  | badIndentation h =>
    obtain ⟨block, hblock, rule, hrule, hindent, rfl⟩ := h
    have hread := Block.read_eq_error.mpr (Or.inl ⟨hindent, rfl⟩)
    exact Or.inr (Or.inr ⟨block, hblock, rule, hrule, hread⟩)
  | ruleBeforeSymbol hrule => exact Or.inl ⟨_, hrule, rfl⟩
  | unreadable hblock hrule hindent hfault =>
    have hread := Block.read_eq_error.mpr (Or.inr ⟨hindent, _, hfault, rfl⟩)
    exact Or.inr (Or.inr ⟨_, hblock, _, hrule, hread⟩)
  | @invalidSymbolName block hblock hinvalid =>
    obtain ⟨above, below, hsplit⟩ := List.append_of_mem hblock
    have hname : block.nameDefect? above = some _ :=
      Block.nameDefect?_eq_some.mpr (Or.inl ⟨hinvalid, rfl⟩)
    exact Or.inr (Or.inl ⟨above, block, below, hsplit, Option.or_eq_some_iff.mpr (Or.inl hname)⟩)
  | duplicateSymbol hsplit hvalid hearlier =>
    have hname := Block.nameDefect?_eq_some.mpr (Or.inr ⟨hvalid, hearlier, rfl⟩)
    exact Or.inr (Or.inl ⟨_, _, _, hsplit, Option.or_eq_some_iff.mpr (Or.inl hname)⟩)
  | emptySymbol hsplit hvalid hfresh hempty =>
    have hname := Block.nameDefect?_eq_none.mpr ⟨hvalid, hfresh⟩
    have hnone := Block.emptyDefect?_eq_some.mpr ⟨hempty, rfl⟩
    exact Or.inr (Or.inl ⟨_, _, _, hsplit, Option.or_eq_some_iff.mpr (Or.inr ⟨hname, hnone⟩)⟩)

theorem mem_defects : error ∈ o.defects ↔ o.Defect error := by
  constructor
  · intro h
    rcases mem_defects_iff.mp h with
      ⟨rule, hrule, rfl⟩ | ⟨above, block, below, hsplit, h⟩ | ⟨block, hblock, rule, hrule, h⟩
    · exact .ruleBeforeSymbol hrule
    · exact defect_of_heading hsplit h
    · exact defect_of_rule hblock hrule h
  · exact mem_defects_of_defect

end Outline

theorem Block.check_eq_error {block : Block} {rule : RuleLine} {error : SyntaxError} :
    block.check rule = .error error ↔
      rule.indent ≠ block.indent ∧ block.misindented rule = error := by
  unfold check
  by_cases hindent : rule.indent = block.indent <;> simp [hindent]

/-- The errors among the lines of a source are those of indentation. -/
theorem error_mem_sourceLines {source : String} {error : SyntaxError} :
    .error error ∈ sourceLines source ↔ (outline source).Misindented error := by
  have hchecked : ∀ block : Block, .error error ∈ block.checked ↔ ∃ rule ∈ block.rules,
      rule.indent ≠ block.indent ∧ block.misindented rule = error := by
    simp [Block.checked, Block.check_eq_error]
  rw [sourceLines_eq, List.mem_append, List.mem_flatMap]
  simp [hchecked, Outline.Misindented, Block.misindented]

/-! ## The laws -/

/-- Both ways of compiling make the same grammar of a source; and where they fail, compiling gives
the first of the errors that validation collects. -/
theorem both_ways_of_compiling_agree (source : String) :
    (∀ g, Grammar.compile source = .ok g ↔ Grammar.validate source = .ok g) ∧
    ∀ error, Grammar.compile source = .error error ↔
      ∃ later, Grammar.validate source = .error (error :: later) := by
  rw [Grammar.compile_eq, Grammar.validate_eq]
  cases (outline source).defects with
  | nil => simp
  | cons first later => simp [eq_comm]

/-- The errors that a validation collects. -/
def collected : Except (List SyntaxError) Grammar → List SyntaxError
  | .ok _ => []
  | .error errors => errors

theorem collected_validate (source : String) :
    collected (Grammar.validate source) = (outline source).defects := by
  rw [Grammar.validate_eq]
  cases (outline source).defects <;> rfl

/-- Validation accounts for every line. The errors that it collects are the defects of the
source's outline, which loses no line; they stand in the order of their lines, one to a line at
most; and those of indentation are the ones that stand among the lines when they are compiled. -/
theorem validation_accounts_for_every_line (source : String) :
    (outline source).lines = plainLines source ∧
    (∀ error, .error error ∈ sourceLines source ↔ (outline source).Misindented error) ∧
    (collected (Grammar.validate source)).Pairwise (·.line < ·.line) ∧
    ∀ error, error ∈ collected (Grammar.validate source) ↔ (outline source).Defect error := by
  rw [collected_validate]
  exact ⟨lines_outline source, fun _ => error_mem_sourceLines, pairwise_defects source,
    fun _ => Outline.mem_defects⟩

/-- A source with a defect of each kind; the heading without rules stands in front of one that is
at fault itself. -/
example : collected (Grammar.validate
    "  orphan\nnoun\n  cat ^x\n  dog [\n   cow\nempty\nnoun\n  hen\nbig noun\n  pig ]\n") =
    [⟨1, some 3, .ruleBeforeSymbol⟩, ⟨3, some 7, .malformedWeight "x"⟩,
      ⟨4, some 7, .unbalancedBracket '['⟩, ⟨5, some 1, .badIndentation "noun" 2 3⟩,
      ⟨6, none, .emptySymbol "empty"⟩, ⟨7, some 1, .duplicateSymbol "noun"⟩,
      ⟨9, some 1, .invalidSymbolName "big noun"⟩, ⟨10, some 7, .unbalancedBracket ']'⟩] := by
  decide +kernel

end TextGrammar
