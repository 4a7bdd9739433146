-- The law of acceptance. A source is compiled exactly when its lines are in order, and its symbols
-- are then its headings, each with the rules below it.
import TextGrammar.Proofs.Defects

namespace TextGrammar

/-! ## Sources that are in order -/

/-- The line states the rule. -/
def RuleLine.Makes (line : RuleLine) (rule : Rule) : Prop :=
  Rule.read (line.indent + 1) line.text.toList = .ok rule

/-- What a source must be to be compiled. -/
structure Acceptable (source : String) : Prop where
  /-- Every line is well indented. -/
  indented : ∀ item ∈ sourceLines source, ∃ line, item = .ok line
  /-- The first line, if there is one, is a heading. -/
  headed : ∀ item ∈ (sourceLines source).head?, ∃ number name, item = .ok ⟨number, .heading name⟩
  named : ∀ block ∈ (outline source).blocks, isSymbolName block.name.toList = true
  distinct : ((outline source).blocks.map (·.name)).Nodup
  /-- A rule follows each heading before the next. -/
  ruled : ∀ block ∈ (outline source).blocks, block.rules ≠ []
  readable : ∀ block ∈ (outline source).blocks, ∀ line ∈ block.rules, ∃ rule, line.Makes rule

/-- The symbol is the block's: its heading, and the rules of its own lines in order. -/
structure Block.Makes (block : Block) (symbol : Symbol) : Prop where
  name : symbol.name = block.name
  line : symbol.line = block.number
  rules : List.Forall₂ RuleLine.Makes block.rules symbol.rules

/-! ## Symbols of blocks without defects -/

namespace Block

variable {block : Block}

/-- A line without a defect is read by itself. -/
theorem makes_of_read {line : RuleLine} {rule : Rule} (h : block.read line = .ok rule) :
    line.Makes rule := by
  unfold read at h
  split at h
  · exact mapError_eq_ok.mp h
  · cases h

theorem forall₂_rulesOn {lines : List RuleLine} (h : block.defectsOn lines = []) :
    List.Forall₂ RuleLine.Makes lines (block.rulesOn lines) := by
  induction lines with
  | nil => exact .nil
  | cons line lines ih =>
    rw [defectsOn_cons, List.append_eq_nil_iff] at h
    rw [rulesOn_cons]
    cases hread : block.read line with
    | ok rule => exact .cons (makes_of_read hread) (ih h.2)
    | error error =>
      rw [hread] at h
      cases h.1

theorem makes_of_defects {above : List Block} (hheading : block.headingDefect? above = none)
    (hrules : block.defectsOn block.rules = []) :
    ∃ symbol, block.symbol? above = some symbol ∧ block.Makes symbol := by
  have hname : block.nameDefect? above = none := (Option.or_eq_none_iff.mp hheading).1
  refine ⟨⟨block.name, block.rulesOn block.rules, block.number⟩, ?_, rfl, rfl,
    forall₂_rulesOn hrules⟩
  rw [symbol?, hname]

end Block

theorem forall₂_blockSymbols {above blocks : List Block} (h : blockDefects above blocks = []) :
    List.Forall₂ Block.Makes blocks (blockSymbols above blocks) := by
  induction blocks generalizing above with
  | nil => exact .nil
  | cons block blocks ih =>
    rw [blockDefects, List.append_eq_nil_iff, List.append_eq_nil_iff,
      Option.toList_eq_nil_iff] at h
    obtain ⟨⟨hheading, hrules⟩, hbelow⟩ := h
    obtain ⟨symbol, hsymbol, hmakes⟩ := Block.makes_of_defects hheading hrules
    rw [blockSymbols, hsymbol]
    exact .cons hmakes (ih hbelow)

/-! ## Sources without defects -/

variable {source : String}

/-- What is compiled is what has no defects. -/
theorem compile_eq_ok_iff {g : Grammar} : Grammar.compile source = .ok g ↔
    (outline source).defects = [] ∧ g = ⟨(outline source).symbols⟩ := by
  rw [Grammar.compile_eq]
  cases (outline source).defects <;> simp [eq_comm]

theorem makes_of_compile {g : Grammar} (h : Grammar.compile source = .ok g) :
    List.Forall₂ Block.Makes (outline source).blocks g.symbols := by
  obtain ⟨hdefects, rfl⟩ := compile_eq_ok_iff.mp h
  exact forall₂_blockSymbols (List.append_eq_nil_iff.mp hdefects).2

theorem names_of_makes {blocks : List Block} {symbols : List Symbol}
    (h : List.Forall₂ Block.Makes blocks symbols) :
    symbols.map (·.name) = blocks.map (·.name) := by
  induction h with
  | nil => rfl
  | cons hmakes _ ih => rw [List.map_cons, List.map_cons, hmakes.name, ih]

/-- The first line of a source without a stray rule is a heading. -/
theorem head?_sourceLines :
    (∀ item ∈ (sourceLines source).head?, ∃ number name, item = .ok ⟨number, .heading name⟩) ↔
      (outline source).stray = [] := by
  rw [sourceLines_eq]
  cases (outline source).stray with
  | nil =>
    cases (outline source).blocks with
    | nil => simp
    | cons block blocks => simp [Block.checked, Block.heading]
  | cons rule stray => simp [RuleLine.line]

theorem acceptable_of_compile {g : Grammar} (h : Grammar.compile source = .ok g) :
    Acceptable source := by
  have hdefect : ∀ error, ¬(outline source).Defect error := by
    intro error hdefect
    rw [← Outline.mem_defects, (compile_eq_ok_iff.mp h).1] at hdefect
    cases hdefect
  have hnames := names_of_makes (makes_of_compile h)
  have hnamed : ∀ block ∈ (outline source).blocks, isSymbolName block.name.toList = true := by
    intro block hblock
    by_contra hinvalid
    exact hdefect _ (.invalidSymbolName hblock (by simpa using hinvalid))
  refine ⟨?_, ?_, hnamed, hnames ▸ nodup_names_of_compile h, ?_, ?_⟩
  · intro item hitem
    cases item with
    | ok line => exact ⟨line, rfl⟩
    | error error => exact absurd (.badIndentation (error_mem_sourceLines.mp hitem)) (hdefect error)
  · rw [head?_sourceLines, List.eq_nil_iff_forall_not_mem]
    exact fun rule hrule => hdefect _ (.ruleBeforeSymbol hrule)
  · intro block hblock hempty
    obtain ⟨above, below, hsplit⟩ := List.append_of_mem hblock
    -- Either an earlier heading has the name, or this one is accepted and lacks rules.
    by_cases hearlier : ∃ earlier ∈ above, earlier.name = block.name
    · exact hdefect _ (.duplicateSymbol hsplit (hnamed block hblock) hearlier)
    · exact hdefect _ (.emptySymbol hsplit (hnamed block hblock) (by simpa using hearlier) hempty)
  · intro block hblock line hline
    obtain ⟨symbol, _, hmakes⟩ := exists_of_mem_of_forall₂ (makes_of_compile h).flip hblock
    obtain ⟨rule, _, hrule⟩ := exists_of_mem_of_forall₂ hmakes.rules.flip hline
    exact ⟨rule, hrule⟩

theorem compile_of_acceptable (h : Acceptable source) : ∃ g, Grammar.compile source = .ok g := by
  refine ⟨_, compile_eq_ok_iff.mpr ⟨?_, rfl⟩⟩
  rw [List.eq_nil_iff_forall_not_mem]
  intro error hmem
  cases Outline.mem_defects.mp hmem with
  | badIndentation hmisindented =>
    obtain ⟨line, hline⟩ := h.indented _ (error_mem_sourceLines.mpr hmisindented)
    cases hline
  | ruleBeforeSymbol hrule =>
    rw [head?_sourceLines.mp h.headed] at hrule
    cases hrule
  | unreadable hblock hrule _ hfault =>
    obtain ⟨made, hmade⟩ := h.readable _ hblock _ hrule
    rw [RuleLine.Makes, hfault] at hmade
    cases hmade
  | invalidSymbolName hblock hinvalid =>
    rw [h.named _ hblock] at hinvalid
    cases hinvalid
  | duplicateSymbol hsplit _ hearlier =>
    obtain ⟨earlier, hmem, hsame⟩ := hearlier
    have hdistinct := h.distinct
    rw [hsplit, List.map_append, List.map_cons, List.nodup_append] at hdistinct
    exact hdistinct.2.2 _ (List.mem_map_of_mem hmem) _ List.mem_cons_self hsame
  | emptySymbol hsplit _ _ hempty => exact h.ruled _ (by simp [hsplit]) hempty

/-- Each symbol that is compiled has a rule. -/
theorem rules_ne_nil_of_compile {g : Grammar} (h : Grammar.compile source = .ok g)
    {symbol : Symbol} (hsymbol : symbol ∈ g.symbols) : symbol.rules ≠ [] := by
  obtain ⟨block, hblock, hmakes⟩ := exists_of_mem_of_forall₂ (makes_of_compile h) hsymbol
  intro hempty
  have hrules := hmakes.rules
  rw [hempty, List.forall₂_nil_right_iff] at hrules
  exact (acceptable_of_compile h).ruled block hblock hrules

/-! ## The law -/

/-- A source is compiled exactly when it is acceptable. Its symbols are then its headings in order,
each with its line and with the rules of the lines below it, which the outline of the source holds
without loss. Each has a rule, and its name finds it. -/
theorem acceptable_sources_are_compiled_as_they_stand (source : String) :
    (outline source).lines = plainLines source ∧
    ((∃ g, Grammar.compile source = .ok g) ↔ Acceptable source) ∧
    ∀ g, Grammar.compile source = .ok g →
      List.Forall₂ Block.Makes (outline source).blocks g.symbols ∧
      ∀ symbol ∈ g.symbols, symbol.rules ≠ [] ∧ g.symbol? symbol.name = some symbol := by
  refine ⟨lines_outline source, ⟨?_, compile_of_acceptable⟩, ?_⟩
  · rintro ⟨g, h⟩
    exact acceptable_of_compile h
  · intro g h
    refine ⟨makes_of_compile h, fun symbol hsymbol => ⟨rules_ne_nil_of_compile h hsymbol, ?_⟩⟩
    exact symbol?_of_nodup (nodup_names_of_compile h) hsymbol

/-- Two symbols whose blocks are indented each in its own way, with comments between the lines. -/
def roundSource : String :=
  "# a round\nverse\n  row [boat] # gently\n\n  merrily ^2\nboat\n\t[a-f|the \\# boat]\n"

/-- The law at a source of two symbols. -/
theorem round_is_compiled_as_it_stands : ∃ g, Grammar.compile roundSource = .ok g ∧
    Acceptable roundSource ∧ List.Forall₂ Block.Makes (outline roundSource).blocks g.symbols ∧
    ∃ verse ∈ g.symbols, verse.rules ≠ [] ∧ g.symbol? verse.name = some verse := by
  have hcompiles : (Grammar.compile roundSource).isOk = true := by decide +kernel
  obtain ⟨g, hg⟩ := exists_of_isOk hcompiles
  obtain ⟨_, hacceptable, hmade⟩ := acceptable_sources_are_compiled_as_they_stand roundSource
  obtain ⟨hmakes, hsymbols⟩ := hmade g hg
  have hblocks : (outline roundSource).blocks ≠ [] := by decide +kernel
  obtain ⟨verse, hverse⟩ := List.exists_mem_of_ne_nil g.symbols fun hnone =>
    hblocks (List.forall₂_nil_right_iff.mp (hnone ▸ hmakes))
  exact ⟨g, hg, hacceptable.mp ⟨g, hg⟩, hmakes, verse, hverse, hsymbols verse hverse⟩

end TextGrammar
