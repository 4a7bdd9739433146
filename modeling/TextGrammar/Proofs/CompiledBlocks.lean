-- What compiling makes of a source, block by block. A block gives a symbol or nothing, and the
-- defects of its lines; of the blocks above, only their names matter to it. Both ways of compiling
-- come to this.
import TextGrammar.Proofs.Compiled
import TextGrammar.Proofs.Outline

namespace TextGrammar

/-! ## The defects and the symbol of a block -/

/-- The rule on a line, read by itself. -/
def RuleLine.read (rule : RuleLine) : Except SyntaxError Rule :=
  (Rule.read (rule.indent + 1) rule.text.toList).mapError (Fault.onLine rule.number)

/-- The error of a rule above all headings. -/
def RuleLine.strayError (rule : RuleLine) : SyntaxError :=
  ⟨rule.number, some (rule.indent + 1), .ruleBeforeSymbol⟩

namespace Block

/-- The rule on a line of the block, or what is wrong with the line. -/
def read (block : Block) (rule : RuleLine) : Except SyntaxError Rule :=
  if rule.indent = block.indent then rule.read else .error (block.misindented rule)

/-- The rules on those lines that can be read. -/
def rulesOn (block : Block) (lines : List RuleLine) : List Rule :=
  lines.filterMap fun line => (block.read line).toOption

/-- What is wrong with the lines. -/
def defectsOn (block : Block) (lines : List RuleLine) : List SyntaxError :=
  lines.filterMap fun line => errorOf? (block.read line)

theorem rulesOn_cons (block : Block) (line : RuleLine) (lines : List RuleLine) :
    block.rulesOn (line :: lines) = (block.read line).toOption.toList ++ block.rulesOn lines := by
  cases h : (block.read line).toOption <;> simp [rulesOn, h]

theorem defectsOn_cons (block : Block) (line : RuleLine) (lines : List RuleLine) :
    block.defectsOn (line :: lines) =
      (errorOf? (block.read line)).toList ++ block.defectsOn lines := by
  cases h : errorOf? (block.read line) <;> simp [defectsOn, h]

/-- What is wrong with the name of a block below the blocks `above`. -/
def nameDefect? (above : List Block) (block : Block) : Option SyntaxError :=
  if isSymbolName block.name.toList = false then
    some ⟨block.number, some 1, .invalidSymbolName block.name⟩
  else if ∃ earlier ∈ above, earlier.name = block.name then
    some ⟨block.number, some 1, .duplicateSymbol block.name⟩
  else none

theorem nameDefect?_eq_none {above : List Block} {block : Block} :
    block.nameDefect? above = none ↔ isSymbolName block.name.toList = true ∧
      ∀ earlier ∈ above, earlier.name ≠ block.name := by
  unfold nameDefect?
  split_ifs with hinvalid hearlier
  · simp [hinvalid]
  · simpa using fun _ => hearlier
  · have hvalid : isSymbolName block.name.toList = true := by simpa using hinvalid
    exact iff_of_true rfl ⟨hvalid, fun earlier hmem hsame => hearlier ⟨earlier, hmem, hsame⟩⟩

/-- What is wrong with a block without rules. -/
def emptyDefect? (block : Block) : Option SyntaxError :=
  if block.rules = [] then some ⟨block.number, none, .emptySymbol block.name⟩ else none

/-- What is wrong with the heading: its name, or with a good name that no rule follows. -/
def headingDefect? (above : List Block) (block : Block) : Option SyntaxError :=
  (block.nameDefect? above).or block.emptyDefect?

/-- The symbol that the block declares, when its name may stand. -/
def symbol? (above : List Block) (block : Block) : Option Symbol :=
  match block.nameDefect? above with
  | some _ => none
  | none => some ⟨block.name, block.rulesOn block.rules, block.number⟩

end Block

/-- The defects of blocks below the blocks `above`. -/
def blockDefects (above : List Block) : List Block → List SyntaxError
  | [] => []
  | block :: below =>
    (block.headingDefect? above).toList ++ block.defectsOn block.rules ++
      blockDefects (above ++ [block]) below

/-- The symbols that blocks below the blocks `above` declare. -/
def blockSymbols (above : List Block) : List Block → List Symbol
  | [] => []
  | block :: below => (block.symbol? above).toList ++ blockSymbols (above ++ [block]) below

/-- The defects of all lines. -/
def Outline.defects (o : Outline) : List SyntaxError :=
  o.stray.map RuleLine.strayError ++ blockDefects [] o.blocks

/-- The symbols of all blocks. -/
def Outline.symbols (o : Outline) : List Symbol := blockSymbols [] o.blocks

/-! ## Rules -/

/-- The block after more of its lines: the rules read from them, and whether one was taken for a
rule. -/
def OpenBlock.withRules (rules : List Rule) (taken : Bool) : OpenBlock → OpenBlock
  | .accepted symbol sawRule =>
    .accepted ⟨symbol.name, symbol.rules ++ rules, symbol.line⟩ (sawRule || taken)
  | block => block

theorem OpenBlock.withRules_nil (current : OpenBlock) : current.withRules [] false = current := by
  cases current <;> simp [withRules]

theorem OpenBlock.withRules_withRules (current : OpenBlock) (a b : List Rule) (x y : Bool) :
    (current.withRules a x).withRules b y = current.withRules (a ++ b) (x || y) := by
  cases current <;> simp [withRules, Bool.or_assoc]

theorem OpenBlock.withRules_ne_nowhere {current : OpenBlock} (hopen : current ≠ .nowhere)
    (rules : List Rule) (taken : Bool) : current.withRules rules taken ≠ .nowhere := by
  cases current with
  | nowhere => exact absurd rfl hopen
  | _ => simp [withRules]

namespace Draft

variable {finished : List Symbol} {current : OpenBlock}

/-- A rule line adds its rule or brings its defect to light; an ill-indented one is not taken for
a rule. -/
theorem step_rule (hopen : current ≠ .nowhere) (block : Block) (rule : RuleLine) :
    (⟨finished, current⟩ : Draft).step (block.check rule) =
      (⟨finished, current.withRules (block.read rule).toOption.toList
        (rule.indent == block.indent)⟩, (errorOf? (block.read rule)).toList) := by
  by_cases hindent : rule.indent = block.indent
  · have hstep : (⟨finished, current⟩ : Draft).step (block.check rule) =
        (⟨finished, current⟩ : Draft).rule rule.number rule.indent rule.text := by
      rw [Block.check, if_pos hindent]
      rfl
    have hread : (Rule.read (rule.indent + 1) rule.text.toList).mapError
        (Fault.onLine rule.number) = rule.read := rfl
    rw [hstep, Block.read, if_pos hindent, Draft.rule, hread]
    cases current with
    | nowhere => exact absurd rfl hopen
    | rejected => cases rule.read <;> rfl
    | accepted symbol sawRule =>
      cases rule.read <;>
        simp [OpenBlock.withRules, errorOf?, Except.toOption, hindent]
  · rw [Block.check, Block.read, if_neg hindent, if_neg hindent]
    cases current <;> simp [step, OpenBlock.withRules, errorOf?, Except.toOption, hindent]

/-- The lines of rules below a heading, whatever follows them. -/
theorem readAll_rules (hopen : current ≠ .nowhere) (block : Block) (rules : List RuleLine)
    (rest : List (Except SyntaxError Line)) :
    (⟨finished, current⟩ : Draft).readAll (rules.map block.check ++ rest) =
      let next : Draft := ⟨finished, current.withRules (block.rulesOn rules)
        (rules.any (·.indent == block.indent))⟩
      ((next.readAll rest).1, block.defectsOn rules ++ (next.readAll rest).2) := by
  induction rules generalizing current with
  | nil => simp [OpenBlock.withRules_nil, Block.rulesOn, Block.defectsOn]
  | cons rule rules ih =>
    simp only [List.map_cons, List.cons_append, readAll, step_rule hopen,
      ih (OpenBlock.withRules_ne_nowhere hopen _ _), OpenBlock.withRules_withRules,
      Block.rulesOn_cons, Block.defectsOn_cons, List.any_cons, List.append_assoc]

/-! ## Headings -/

/-- The draft knows the names of the blocks above, as far as they may be names. -/
def Knows (draft : Draft) (above : List Block) : Prop :=
  ∀ name, name ∈ draft.names ↔
    isSymbolName name.toList = true ∧ ∃ block ∈ above, block.name = name

/-- A heading ends the block above it, and is rejected for a defect of its name. -/
theorem heading_eq {draft : Draft} {above : List Block} (hknows : draft.Knows above)
    (block : Block) :
    draft.heading block.number block.name =
      match block.nameDefect? above with
      | some defect => (⟨draft.symbols, .rejected⟩, draft.closingErrors ++ [defect])
      | none => (⟨draft.symbols, .accepted ⟨block.name, [], block.number⟩ false⟩,
          draft.closingErrors) := by
  unfold heading Block.nameDefect?
  have hdeclares : isSymbolName block.name.toList = true →
      (draft.declares block.name = true ↔ ∃ earlier ∈ above, earlier.name = block.name) := by
    intro hvalid
    rw [declares_iff, hknows, and_iff_right hvalid]
  cases hvalid : isSymbolName block.name.toList with
  | false => rfl
  | true =>
    -- A name that may stand is declared exactly when a block above has it, for that was the
    -- first of its name or repeats one that was.
    dsimp only
    by_cases hearlier : ∃ earlier ∈ above, earlier.name = block.name
    · simp [(hdeclares hvalid).mpr hearlier, hearlier]
    · have hnew : draft.declares block.name = false := by
        simpa using mt (hdeclares hvalid).mp hearlier
      simp [hnew, hearlier]

/-! ## Blocks -/

/-- What a block leaves of the draft above it. -/
def after (draft : Draft) (above : List Block) (block : Block) : Draft :=
  match block.nameDefect? above with
  | some _ => ⟨draft.symbols, .rejected⟩
  | none => ⟨draft.symbols,
      .accepted ⟨block.name, block.rulesOn block.rules, block.number⟩ (!block.rules.isEmpty)⟩

/-- The first rule of a block is never ill-indented. -/
theorem any_indent_eq (block : Block) :
    block.rules.any (·.indent == block.indent) = !block.rules.isEmpty := by
  obtain ⟨number, name, rules⟩ := block
  cases rules <;> simp [Block.indent]

theorem readAll_block {draft : Draft} {above : List Block} (hknows : draft.Knows above)
    (block : Block) (rest : List (Except SyntaxError Line)) :
    draft.readAll (block.checked ++ rest) =
      (((draft.after above block).readAll rest).1,
        draft.closingErrors ++ (block.nameDefect? above).toList ++
          block.defectsOn block.rules ++ ((draft.after above block).readAll rest).2) := by
  have hstep : draft.step (.ok block.heading) = draft.heading block.number block.name := rfl
  rw [Block.checked, List.cons_append, readAll, hstep, heading_eq hknows, after]
  cases hname : block.nameDefect? above with
  | some defect =>
    have hopen : OpenBlock.rejected ≠ .nowhere := by simp
    simp only [readAll_rules hopen, OpenBlock.withRules, Option.toList_some, List.append_assoc]
  | none =>
    have hopen : OpenBlock.accepted ⟨block.name, [], block.number⟩ false ≠ .nowhere := by simp
    simp only [readAll_rules hopen, OpenBlock.withRules, any_indent_eq, List.nil_append,
      Bool.false_or, Option.toList_none, List.append_nil, List.append_assoc]

theorem symbols_after (draft : Draft) (above : List Block) (block : Block) :
    (draft.after above block).symbols = draft.symbols ++ (block.symbol? above).toList := by
  unfold after Block.symbol?
  cases block.nameDefect? above <;> simp [symbols]

/-- That no rule followed a heading comes to light behind the block's lines, but then it has no
others with a defect. -/
theorem defects_after (draft : Draft) (above : List Block) (block : Block) :
    (block.nameDefect? above).toList ++ block.defectsOn block.rules ++
        (draft.after above block).closingErrors =
      (block.headingDefect? above).toList ++ block.defectsOn block.rules := by
  unfold after Block.headingDefect? Block.emptyDefect?
  cases block.nameDefect? above with
  | some defect => simp [closingErrors]
  | none =>
    cases hrules : block.rules with
    | nil => simp [closingErrors, Block.defectsOn]
    | cons first rules => simp [closingErrors]

theorem knows_after {draft : Draft} {above : List Block} (hknows : draft.Knows above)
    (block : Block) : (draft.after above block).Knows (above ++ [block]) := by
  intro name
  have hnames : (draft.after above block).names =
      draft.names ++ ((block.symbol? above).toList).map (·.name) := by
    simp [names, symbols_after]
  have hnew : name ∈ ((block.symbol? above).toList).map (·.name) ↔
      block.nameDefect? above = none ∧ block.name = name := by
    unfold Block.symbol?
    cases block.nameDefect? above <;> simp [eq_comm]
  rw [hnames, List.mem_append, hknows, hnew, Block.nameDefect?_eq_none]
  constructor
  · rintro (⟨hvalid, earlier, hmem, rfl⟩ | ⟨⟨hvalid, _⟩, rfl⟩)
    · exact ⟨hvalid, earlier, List.mem_append_left _ hmem, rfl⟩
    · exact ⟨hvalid, block, List.mem_append_right _ List.mem_cons_self, rfl⟩
  · rintro ⟨hvalid, other, hmem, rfl⟩
    rcases List.mem_append.mp hmem with hmem | hmem
    · exact Or.inl ⟨hvalid, other, hmem, rfl⟩
    · cases List.mem_singleton.mp hmem
      by_cases hearlier : ∃ earlier ∈ above, earlier.name = block.name
      · exact Or.inl ⟨hvalid, hearlier⟩
      · exact Or.inr ⟨⟨hvalid, by simpa using hearlier⟩, rfl⟩

/-- Compiling blocks below the blocks that the draft knows. -/
theorem readAll_blocks {draft : Draft} {above : List Block} (hknows : draft.Knows above)
    (blocks : List Block) :
    (draft.readAll (blocks.flatMap Block.checked)).2 =
        draft.closingErrors ++ blockDefects above blocks ∧
      (draft.readAll (blocks.flatMap Block.checked)).1.symbols =
        draft.symbols ++ blockSymbols above blocks := by
  induction blocks generalizing draft above with
  | nil => simp [readAll, blockDefects, blockSymbols]
  | cons block blocks ih =>
    -- What a block lacks is told only by the heading below it, so its closing errors come first
    -- in what the rest brings to light.
    obtain ⟨hdefects, hsymbols⟩ := ih (knows_after hknows block)
    rw [List.flatMap_cons, readAll_block hknows]
    dsimp only
    rw [hdefects, hsymbols, symbols_after, blockDefects, blockSymbols, ← defects_after draft]
    simp

/-! ## Sources -/

theorem readAll_stray (stray : List RuleLine) (rest : List (Except SyntaxError Line)) :
    start.readAll (stray.map (fun rule => .ok rule.line) ++ rest) =
      ((start.readAll rest).1, stray.map RuleLine.strayError ++ (start.readAll rest).2) := by
  induction stray with
  | nil => rfl
  | cons rule stray ih =>
    have hstep : start.step (.ok rule.line) = (start, [rule.strayError]) := rfl
    simp only [List.map_cons, List.cons_append, readAll, hstep, ih, List.nil_append]

/-- Compiling a source gives the defects and the symbols of its outline. -/
theorem readAll_source (source : String) :
    (start.readAll (sourceLines source)).2 = (outline source).defects ∧
      (start.readAll (sourceLines source)).1.symbols = (outline source).symbols := by
  have hknows : start.Knows [] := by simp [Knows, names, start, symbols]
  have hblocks := readAll_blocks hknows (outline source).blocks
  rw [sourceLines_eq, readAll_stray]
  exact ⟨congrArg _ hblocks.1, hblocks.2⟩

/-- The reading that stops at the first error does what the full reading does up to there. -/
theorem readFirst_eq (draft : Draft) (lines : List (Except SyntaxError Line)) :
    draft.readFirst lines =
      match draft.readAll lines with
      | (last, []) => .ok last
      | (_, error :: _) => .error error := by
  induction lines generalizing draft with
  | nil =>
    unfold readFirst readAll
    cases draft.closingErrors <;> rfl
  | cons line lines ih =>
    unfold readFirst readAll
    obtain ⟨next, errors⟩ := draft.step line
    cases errors with
    | nil => exact ih next
    | cons error errors => rfl

end Draft

namespace Grammar

theorem validate_eq (source : String) :
    validate source =
      match (outline source).defects with
      | [] => .ok ⟨(outline source).symbols⟩
      | error :: errors => .error (error :: errors) := by
  obtain ⟨hdefects, hsymbols⟩ := Draft.readAll_source source
  rw [← hdefects, ← hsymbols, validate]
  obtain ⟨last, errors⟩ := Draft.start.readAll (sourceLines source)
  cases errors <;> rfl

theorem compile_eq (source : String) :
    compile source =
      match (outline source).defects with
      | [] => .ok ⟨(outline source).symbols⟩
      | error :: _ => .error error := by
  obtain ⟨hdefects, hsymbols⟩ := Draft.readAll_source source
  rw [← hdefects, ← hsymbols, compile, Draft.readFirst_eq]
  obtain ⟨last, errors⟩ := Draft.start.readAll (sourceLines source)
  cases errors <;> rfl

end Grammar

end TextGrammar
