-- The law of printing. A grammar is printed as source with each name on a line and each rule below
-- it on an indented one. The reader of lines finds the rules as they were written, but for those
-- with a comment mark in quoted text, which is not escaped there.
import TextGrammar.Proofs.Acceptance
import TextGrammar.Proofs.Comments
import TextGrammar.Proofs.DeclaredNames

namespace TextGrammar

/-! ## Printing -/

/-- The lines of a symbol: its name, and its rules behind two blanks each. -/
def Symbol.printedLines (symbol : Symbol) : List (List Char) :=
  symbol.name.toList :: symbol.rules.map fun rule => ' ' :: ' ' :: rule.spell

/-- A grammar as source; a line feed ends each line. -/
def Grammar.printed (g : Grammar) : String :=
  String.ofList ((g.symbols.flatMap Symbol.printedLines).flatMap (· ++ ['\n']))

/-! ## Lines -/

/-- The characters are a line as a whole: no line feed is in them, and no white space at their end,
where a carriage return would be taken for a part of what ends the line. -/
structure IsLine (cs : List Char) : Prop where
  noFeed : '\n' ∉ cs
  stop : ∀ c ∈ cs.getLast?, Unicode.isWhiteSpace c = false

theorem rawLines_cons {c : Char} {cs : List Char} (hfeed : c ≠ '\n')
    (hreturn : c = '\r' → cs.head? ≠ some '\n') :
    rawLines (c :: cs) =
      match rawLines cs with
      | [] => [[c]]
      | line :: lines => (c :: line) :: lines := by
  refine rawLines.eq_4 c cs hfeed ?_
  rintro tail rfl rfl
  exact hreturn rfl rfl

theorem IsLine.rawLines {cs : List Char} (h : IsLine cs) (rest : List Char) :
    rawLines (cs ++ '\n' :: rest) = cs :: rawLines rest := by
  obtain ⟨hfeed, hstop⟩ := h
  induction cs with
  | nil => rw [List.nil_append, TextGrammar.rawLines]
  | cons c cs ih =>
    rw [List.mem_cons, not_or] at hfeed
    have htail : ∀ d ∈ cs.getLast?, Unicode.isWhiteSpace d = false := fun d hd =>
      hstop d (mem_getLast?_of_suffix (List.suffix_cons c cs) hd)
    rw [List.cons_append, rawLines_cons (Ne.symm hfeed.1), ih hfeed.2 htail]
    rintro rfl hhead
    -- The line feed behind a carriage return would be the one that ends the line.
    cases cs with
    | nil => exact absurd (hstop '\r' rfl) (by decide)
    | cons d cs =>
      cases hhead
      exact hfeed.2 List.mem_cons_self

/-- Lines are found as they were written. -/
theorem rawLines_lines {lines : List (List Char)} (h : ∀ line ∈ lines, IsLine line) :
    rawLines (lines.flatMap (· ++ ['\n'])) = lines := by
  induction lines with
  | nil => rw [List.flatMap_nil, rawLines]
  | cons line lines ih =>
    obtain ⟨hline, hlines⟩ := List.forall_mem_cons.mp h
    rw [List.flatMap_cons, List.append_assoc, List.singleton_append, hline.rawLines, ih hlines]

/-- What a line is for follows from what is left of it without its comment. -/
theorem ofRaw?_of_trimmed {raw before body : List Char}
    (hcontent : trimEnd (stripComment raw) = before ++ body)
    (hbefore : before.all Unicode.isWhiteSpace = true) (hne : body ≠ [])
    (hbody : ∀ c ∈ body.head?, Unicode.isWhiteSpace c = false) :
    LineKind.ofRaw? raw =
      if before.length = 0 then some (.heading (String.ofList body))
      else some (.rule before.length (String.ofList body)) := by
  have hstart : trimStart (before ++ body) = body := by
    rw [trimStart, List.dropWhile_append_of_pos (List.all_eq_true.mp hbefore)]
    exact trimStart_of_start hbody
  have hlength : (before ++ body).length - body.length = before.length := by simp
  have hempty : body.isEmpty = false := by simpa using hne
  unfold LineKind.ofRaw?
  rw [hcontent]
  dsimp only
  rw [hstart, hlength, hempty, if_neg Bool.false_ne_true]

/-! ## The line of a name -/

section

variable {name : String}

theorem isLine_name (h : isSymbolName name.toList = true) : IsLine name.toList := by
  have hchars := isNameChar_of_isSymbolName h
  exact ⟨(onLine_name hchars).noFeed, fun c hc =>
    (hchars c (List.mem_of_getLast? hc)).clean.1.noSpace⟩

/-- A name on a line of its own is a heading. -/
theorem ofRaw?_name (h : isSymbolName name.toList = true) :
    LineKind.ofRaw? name.toList = some (.heading name) := by
  have hchars := isNameChar_of_isSymbolName h
  have hne : name.toList ≠ [] := by
    intro hempty
    rw [hempty] at h
    cases h
  have hstrip := (onLine_name hchars).kept not_false []
  rw [List.append_nil, cutComment, List.append_nil] at hstrip
  have hcontent : trimEnd (stripComment name.toList) = [] ++ name.toList := by
    rw [stripComment, hstrip]
    exact trimEnd_of_stop (isLine_name h).stop
  rw [ofRaw?_of_trimmed hcontent rfl hne, if_pos List.length_nil, String.ofList_toList]
  exact fun c hc => (hchars c (List.mem_of_mem_head? hc)).clean.1.noSpace

end

/-! ## The line of a rule -/

/-- The rule can be told apart from a blank line, and white space around it means nothing. -/
structure Rule.Printable (rule : Rule) : Prop where
  canonical : rule.Canonical nestingLimit
  nonempty : rule.spell ≠ []
  isSealed : Sealed rule.spell

/-- What is left of a rule's text on a line of source. -/
def Rule.left (rule : Rule) : String := String.ofList (trimEnd (stripComment rule.spell))

namespace Rule.Printable

variable {rule : Rule}

theorem isLine (h : rule.Printable) : IsLine (' ' :: ' ' :: rule.spell) := by
  refine ⟨by simpa using (onLine h.canonical).noFeed, fun c hc => h.isSealed.stop c ?_⟩
  rwa [List.getLast?_cons_cons, List.getLast?_cons_of_ne_nil h.nonempty] at hc

theorem left_eq (h : rule.Printable) (hnone : rule.Uncommented) : rule.left = rule.text := by
  rw [left, stripComment_of_uncommented h.canonical hnone, trimEnd_of_stop h.isSealed.stop, text]

/-- The start of the rule is left. -/
theorem exists_cons (h : rule.Printable) : ∃ c cs, stripComment rule.spell = c :: cs ∧
    Unicode.isWhiteSpace c = false := by
  have hne : stripComment rule.spell ≠ [] := by
    by_cases hnone : rule.Uncommented
    · rw [stripComment_of_uncommented h.canonical hnone]
      exact h.nonempty
    · exact (breaksOff_of_commented h.canonical hnone).ne_nil
  obtain ⟨c, cs, hstrip⟩ := List.exists_cons_of_ne_nil hne
  have hbegins : c :: cs <+: rule.spell := hstrip ▸ cutComment_isPrefix false rule.spell
  exact ⟨c, cs, hstrip, h.isSealed.start c (mem_head?_of_isPrefix hbegins rfl)⟩

theorem ofRaw?_eq (h : rule.Printable) :
    LineKind.ofRaw? (' ' :: ' ' :: rule.spell) = some (.rule 2 rule.left) := by
  obtain ⟨c, cs, hstrip, hc⟩ := h.exists_cons
  have hblank : OnLine [' '] False := .singleton (by decide)
  have hblanks : OnLine [' ', ' '] False := hblank.append_plain hblank
  have hraw : stripComment (' ' :: ' ' :: rule.spell) = [' ', ' '] ++ c :: cs := by
    rw [← hstrip]
    exact hblanks.kept not_false rule.spell
  have hleft : trimEnd (stripComment rule.spell) = c :: trimEnd cs := by
    rw [hstrip]
    exact trimEnd_append_cons hc [] cs
  have hcontent : trimEnd (stripComment (' ' :: ' ' :: rule.spell)) =
      [' ', ' '] ++ c :: trimEnd cs := by
    rw [hraw, trimEnd_append_cons hc]
  rw [ofRaw?_of_trimmed hcontent (by decide) (List.cons_ne_nil _ _), left, hleft]
  · rfl
  · simpa using hc

/-- What is left of a rule is read exactly when no quoted text has a comment mark, and as the
rule. -/
theorem read_left (h : rule.Printable) (column : Nat) {made : Rule} :
    Rule.read column rule.left.toList = .ok made ↔ rule.Uncommented ∧ made = rule := by
  by_cases hnone : rule.Uncommented
  · rw [h.left_eq hnone, text, String.toList_ofList, read_spell h.canonical]
    simp [hnone, eq_comm]
  · rw [left, String.toList_ofList]
    have hunreadable := (breaksOff_of_commented h.canonical hnone).trimEnd.unreadable column made
    simp [hunreadable, hnone]

end Rule.Printable

/-! ## The outline of what is printed -/

/-- The line is the one that the rule is printed on. -/
structure RuleLine.Prints (line : RuleLine) (rule : Rule) : Prop where
  indent : line.indent = 2
  text : line.text = rule.left

/-- The block is the one that the symbol is printed as. -/
structure Block.Prints (block : Block) (symbol : Symbol) : Prop where
  name : block.name = symbol.name
  rules : List.Forall₂ RuleLine.Prints block.rules symbol.rules

/-- The name is one that a heading may have, and the rules can be told apart from blank lines. -/
structure Symbol.Printable (symbol : Symbol) : Prop where
  name : isSymbolName symbol.name.toList = true
  rules : ∀ rule ∈ symbol.rules, rule.Printable

theorem ofRaw_cons {number : Nat} {raw : List Char} {kind : LineKind} {raws : List (List Char)}
    (h : LineKind.ofRaw? raw = some kind) :
    Line.ofRaw number (raw :: raws) = ⟨number, kind⟩ :: Line.ofRaw (number + 1) raws := by
  rw [Line.ofRaw, h]

/-- The lines of printed rules, whatever follows them. -/
theorem ofRaw_rules {rules : List Rule} (h : ∀ rule ∈ rules, rule.Printable) (number : Nat)
    (rest : List (List Char)) : ∃ lines next,
      Line.ofRaw number ((rules.map fun rule => ' ' :: ' ' :: rule.spell) ++ rest) =
        lines.map RuleLine.line ++ Line.ofRaw next rest ∧
      List.Forall₂ RuleLine.Prints lines rules := by
  induction rules generalizing number with
  | nil => exact ⟨[], number, rfl, .nil⟩
  | cons rule rules ih =>
    obtain ⟨hrule, hrules⟩ := List.forall_mem_cons.mp h
    obtain ⟨lines, next, hlines, hprints⟩ := ih hrules (number + 1)
    refine ⟨⟨number, 2, rule.left⟩ :: lines, next, ?_, .cons ⟨rfl, rfl⟩ hprints⟩
    rw [List.map_cons, List.cons_append, ofRaw_cons hrule.ofRaw?_eq, hlines]
    rfl

theorem ofRaw_symbols {symbols : List Symbol} (h : ∀ symbol ∈ symbols, symbol.Printable)
    (number : Nat) : ∃ blocks,
      Line.ofRaw number (symbols.flatMap Symbol.printedLines) = blocks.flatMap Block.lines ∧
      List.Forall₂ Block.Prints blocks symbols := by
  induction symbols generalizing number with
  | nil => exact ⟨[], rfl, .nil⟩
  | cons symbol symbols ih =>
    obtain ⟨hsymbol, hsymbols⟩ := List.forall_mem_cons.mp h
    obtain ⟨lines, next, hlines, hprints⟩ :=
      ofRaw_rules hsymbol.rules (number + 1) (symbols.flatMap Symbol.printedLines)
    obtain ⟨blocks, hblocks, hrest⟩ := ih hsymbols next
    refine ⟨⟨number, symbol.name, lines⟩ :: blocks, ?_, .cons ⟨rfl, hprints⟩ hrest⟩
    rw [List.flatMap_cons, Symbol.printedLines, List.cons_append,
      ofRaw_cons (ofRaw?_name hsymbol.name), hlines, hblocks]
    rfl

namespace Outline

theorem foldr_rules (rules : List RuleLine) (o : Outline) :
    (rules.map RuleLine.line).foldr cons o = ⟨rules ++ o.stray, o.blocks⟩ := by
  induction rules with
  | nil => rfl
  | cons rule rules ih =>
    rw [List.map_cons, List.foldr_cons, ih]
    rfl

/-- The lines of blocks have these blocks for their outline. -/
theorem ofLines_blocks (blocks : List Block) :
    ofLines (blocks.flatMap Block.lines) = ⟨[], blocks⟩ := by
  induction blocks with
  | nil => rfl
  | cons block blocks ih =>
    unfold ofLines at ih ⊢
    rw [List.flatMap_cons, Block.lines, List.cons_append, List.foldr_cons, List.foldr_append, ih,
      foldr_rules, List.append_nil]
    rfl

end Outline

section

variable {g : Grammar}

theorem isLine_of_mem_printedLines {symbol : Symbol} (h : symbol.Printable) :
    ∀ line ∈ symbol.printedLines, IsLine line := by
  refine List.forall_mem_cons.mpr ⟨isLine_name h.name, fun line hline => ?_⟩
  obtain ⟨rule, hrule, rfl⟩ := List.mem_map.mp hline
  exact (h.rules rule hrule).isLine

/-- A block for each symbol, and nothing above the first. -/
theorem outline_printed (h : ∀ symbol ∈ g.symbols, symbol.Printable) : ∃ blocks,
    outline g.printed = ⟨[], blocks⟩ ∧ List.Forall₂ Block.Prints blocks g.symbols := by
  obtain ⟨blocks, hblocks, hprints⟩ := ofRaw_symbols h 1
  refine ⟨blocks, ?_, hprints⟩
  have hlines : ∀ line ∈ g.symbols.flatMap Symbol.printedLines, IsLine line := by
    intro line hline
    obtain ⟨symbol, hsymbol, hline⟩ := List.mem_flatMap.mp hline
    exact isLine_of_mem_printedLines (h symbol hsymbol) line hline
  rw [outline, plainLines, Grammar.printed, String.toList_ofList, rawLines_lines hlines, hblocks,
    Outline.ofLines_blocks]

/-! ## What is printed of what was compiled -/

variable {source : String}

/-- What was compiled can be printed, unless a rule has no text. -/
theorem printable_of_compile (hcompile : Grammar.compile source = .ok g)
    (htexts : ∀ symbol ∈ g.symbols, ∀ rule ∈ symbol.rules, rule.text ≠ "") :
    ∀ symbol ∈ g.symbols, symbol.Printable := by
  intro symbol hsymbol
  obtain ⟨block, hblock, hmakes⟩ := exists_of_mem_of_forall₂ (makes_of_compile hcompile) hsymbol
  refine ⟨hmakes.name ▸ (acceptable_of_compile hcompile).named block hblock, fun rule hrule => ?_⟩
  have hcanonical := allCanonical_of_compile hcompile symbol hsymbol rule hrule
  obtain ⟨line, hline, hread⟩ := exists_of_mem_of_forall₂ hmakes.rules hrule
  obtain ⟨hstart, hend⟩ := keeps_of_read (sealed_of_mem_rules hblock hline) hread
  refine ⟨hcanonical, fun hempty => ?_, sealed_spell hcanonical hstart hend⟩
  exact htexts symbol hsymbol rule hrule (by rw [Rule.text, hempty, String.ofList_nil])

/-- All rules of a printed block are indented alike. -/
theorem Block.Prints.check {block : Block} {symbol : Symbol} (h : block.Prints symbol) :
    ∀ line ∈ block.rules, block.check line = .ok line.line := by
  have hindents : ∀ line ∈ block.rules, line.indent = 2 := by
    intro line hline
    obtain ⟨rule, _, hprints⟩ := exists_of_mem_of_forall₂ h.rules.flip hline
    exact hprints.indent
  intro line hline
  obtain ⟨first, rules, hrules⟩ := List.exists_cons_of_ne_nil (List.ne_nil_of_mem hline)
  have hindent : block.indent = 2 := by
    rw [Block.indent, hrules]
    exact hindents first (hrules ▸ List.mem_cons_self)
  rw [Block.check, if_pos ((hindents line hline).trans hindent.symm)]

theorem names_of_prints {blocks : List Block} {symbols : List Symbol}
    (h : List.Forall₂ Block.Prints blocks symbols) :
    blocks.map (·.name) = symbols.map (·.name) := by
  induction h with
  | nil => rfl
  | cons hprints _ ih => rw [List.map_cons, List.map_cons, hprints.name, ih]

/-- What is printed is acceptable exactly when no quoted text has a comment mark. -/
theorem acceptable_printed_iff (hcompile : Grammar.compile source = .ok g)
    (htexts : ∀ symbol ∈ g.symbols, ∀ rule ∈ symbol.rules, rule.text ≠ "") :
    Acceptable g.printed ↔ ∀ symbol ∈ g.symbols, ∀ rule ∈ symbol.rules, rule.Uncommented := by
  have hprintable := printable_of_compile hcompile htexts
  obtain ⟨blocks, houtline, hprints⟩ := outline_printed hprintable
  constructor
  · intro hacceptable symbol hsymbol rule hrule
    obtain ⟨block, hblock, hblockPrints⟩ := exists_of_mem_of_forall₂ hprints hsymbol
    obtain ⟨line, hline, hlinePrints⟩ := exists_of_mem_of_forall₂ hblockPrints.rules hrule
    obtain ⟨made, hmade⟩ := hacceptable.readable block (houtline ▸ hblock) line hline
    have hreads := ((hprintable symbol hsymbol).rules rule hrule).read_left
    rw [RuleLine.Makes, hlinePrints.text, hreads] at hmade
    exact hmade.1
  · intro huncommented
    refine ⟨?_, head?_sourceLines.mpr (by rw [houtline]), ?_, ?_, ?_, ?_⟩
    · intro item hitem
      rw [sourceLines_eq, houtline, List.map_nil, List.nil_append] at hitem
      obtain ⟨block, hblock, hitem⟩ := List.mem_flatMap.mp hitem
      obtain ⟨symbol, _, hblockPrints⟩ := exists_of_mem_of_forall₂ hprints.flip hblock
      rcases List.mem_cons.mp hitem with rfl | hitem
      · exact ⟨_, rfl⟩
      · obtain ⟨line, hline, rfl⟩ := List.mem_map.mp hitem
        exact ⟨_, hblockPrints.check line hline⟩
    · intro block hblock
      rw [houtline] at hblock
      obtain ⟨symbol, hsymbol, hblockPrints⟩ := exists_of_mem_of_forall₂ hprints.flip hblock
      exact hblockPrints.name ▸ (hprintable symbol hsymbol).name
    · rw [houtline, names_of_prints hprints]
      exact nodup_names_of_compile hcompile
    · intro block hblock hempty
      rw [houtline] at hblock
      obtain ⟨symbol, hsymbol, hblockPrints⟩ := exists_of_mem_of_forall₂ hprints.flip hblock
      have hrules := hblockPrints.rules
      rw [hempty, List.forall₂_nil_left_iff] at hrules
      exact rules_ne_nil_of_compile hcompile hsymbol hrules
    · intro block hblock line hline
      rw [houtline] at hblock
      obtain ⟨symbol, hsymbol, hblockPrints⟩ := exists_of_mem_of_forall₂ hprints.flip hblock
      obtain ⟨rule, hrule, hlinePrints⟩ := exists_of_mem_of_forall₂ hblockPrints.rules.flip hline
      have hreads := ((hprintable symbol hsymbol).rules rule hrule).read_left
      refine ⟨rule, ?_⟩
      rw [RuleLine.Makes, hlinePrints.text, hreads]
      exact ⟨huncommented symbol hsymbol rule hrule, rfl⟩

theorem forall_uncommented_iff :
    (∀ symbol ∈ g.symbols, ∀ rule ∈ symbol.rules, rule.Uncommented) ↔
      ∀ part ∈ g.parts, part.Uncommented := by
  constructor
  · intro h part hpart
    obtain ⟨symbol, hsymbol, rule, hrule, hpart⟩ := Phrase.mem_parts.mp hpart
    exact h symbol hsymbol rule hrule part hpart
  · exact fun h symbol hsymbol rule hrule => Phrase.all_of_rule h hsymbol hrule

/-- What is related to the items of one list is related through them. -/
theorem forall₂_through {α β γ : Type} {R : α → β → Prop} {S : α → γ → Prop} {T : β → γ → Prop}
    {as : List α} {bs : List β} {cs : List γ} (hr : List.Forall₂ R as bs)
    (hs : List.Forall₂ S as cs) (h : ∀ a, ∀ b ∈ bs, ∀ c, R a b → S a c → T b c) :
    List.Forall₂ T bs cs := by
  induction hr generalizing cs with
  | nil =>
    cases hs
    exact .nil
  | cons hab _ ih =>
    cases hs with
    | cons hac hs =>
      refine .cons (h _ _ List.mem_cons_self _ hab hac) (ih hs fun a b hb => ?_)
      exact h a b (List.mem_cons_of_mem _ hb)

/-- A block makes the symbol that it was printed for. -/
theorem Block.Prints.eq_of_makes {block : Block} {was now : Symbol} (hwas : was.Printable)
    (hprints : block.Prints was) (hmakes : block.Makes now) :
    now.name = was.name ∧ now.rules = was.rules := by
  refine ⟨hmakes.name.trans hprints.name, ?_⟩
  have hrules : List.Forall₂ (fun rule made : Rule => rule = made) was.rules now.rules := by
    refine forall₂_through hprints.rules hmakes.rules fun line rule hrule made hline hmade => ?_
    rw [RuleLine.Makes, hline.text] at hmade
    exact (((hwas.rules rule hrule).read_left _).mp hmade).2.symm
  rw [List.forall₂_eq_eq_eq] at hrules
  exact hrules.symm

end

/-! ## The law -/

/-- What was compiled, printed as source, is compiled again if and only if no quoted text of it has
a comment mark, where no rule is without text. The symbols are then the same: their names in order,
and the rules of each. -/
theorem printed_grammars_are_compiled_again {source : String} {g : Grammar}
    (hcompile : Grammar.compile source = .ok g)
    (htexts : ∀ symbol ∈ g.symbols, ∀ rule ∈ symbol.rules, rule.text ≠ "") :
    ((∃ again, Grammar.compile g.printed = .ok again) ↔ ∀ part ∈ g.parts, part.Uncommented) ∧
    ∀ again, Grammar.compile g.printed = .ok again →
      List.Forall₂ (fun was now => now.name = was.name ∧ now.rules = was.rules)
        g.symbols again.symbols := by
  refine ⟨?_, fun again hagain => ?_⟩
  · have hacceptable : (∃ again, Grammar.compile g.printed = .ok again) ↔ Acceptable g.printed :=
      ⟨fun ⟨_, hagain⟩ => acceptable_of_compile hagain, compile_of_acceptable⟩
    rw [hacceptable, acceptable_printed_iff hcompile htexts, forall_uncommented_iff]
  · have hprintable := printable_of_compile hcompile htexts
    obtain ⟨blocks, houtline, hprints⟩ := outline_printed hprintable
    have hmakes := makes_of_compile hagain
    rw [houtline] at hmakes
    refine forall₂_through hprints hmakes fun block was hwas now hblock hnow => ?_
    exact hblock.eq_of_makes (hprintable was hwas) hnow

/-- A source with comments, escapes of every kind, quotes and weights. -/
def balladSource : String :=
  "ballad\n\t[verse.title] \\# ['it\\'s \\\\'.a]\\t|[a-f|\"\\[[verse]\" ^0] ^.5 # refrain\n\n" ++
    "\t\\nla\nverse # and rest\n   [[verse]|[-6-1.th] la ^2]\n"

theorem ballad_is_compiled_again : ∃ g again, Grammar.compile balladSource = .ok g ∧
    Grammar.compile g.printed = .ok again ∧
    List.Forall₂ (fun was now => now.name = was.name ∧ now.rules = was.rules)
      g.symbols again.symbols := by
  have hcheck : (Grammar.compile balladSource).toOption.any (fun g =>
      g.symbols.all (fun symbol => symbol.rules.all (·.text != "")) &&
        g.parts.all (decide ·.Uncommented)) = true := by decide +kernel
  obtain ⟨g, hcompile, hpasses⟩ := exists_of_any hcheck
  simp only [Bool.and_eq_true, List.all_eq_true, bne_iff_ne, decide_eq_true_eq] at hpasses
  obtain ⟨hagain, hsame⟩ := printed_grammars_are_compiled_again hcompile hpasses.1
  obtain ⟨again, hagain⟩ := hagain.mpr hpasses.2
  exact ⟨g, again, hcompile, hagain, hsame again hagain⟩

/-- A comment mark in quoted text is printed without its escape, and the line breaks off there. -/
theorem quoted_comment_mark_breaks_the_line : ∃ g, Grammar.compile "q\n  ['a\\#b']\n" = .ok g ∧
    (∀ symbol ∈ g.symbols, ∀ rule ∈ symbol.rules, rule.text ≠ "") ∧
    Grammar.compile g.printed = .error ⟨2, some 4, .unclosedQuote '\''⟩ := by
  have hcheck : (Grammar.compile "q\n  ['a\\#b']\n").toOption.any (fun g =>
      g.symbols.all (fun symbol => symbol.rules.all (·.text != "")) &&
        errorOf? (Grammar.compile g.printed) == some ⟨2, some 4, .unclosedQuote '\''⟩) = true := by
    decide +kernel
  obtain ⟨g, hcompile, hpasses⟩ := exists_of_any hcheck
  simp only [Bool.and_eq_true, List.all_eq_true, bne_iff_ne, beq_iff_eq,
    errorOf?_eq_some] at hpasses
  exact ⟨g, hcompile, hpasses.1, hpasses.2⟩

end TextGrammar
