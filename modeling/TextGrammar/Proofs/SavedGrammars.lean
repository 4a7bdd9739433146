-- The law of saving: a grammar that is saved and loaded again is the grammar that it was. Each part
-- of a grammar reads back from its value, and the values of a whole grammar need no more room than
-- there is, or the text is not loaded at all.
import TextGrammar.Proofs.ReadValues
import TextGrammar.Ron.Grammar

namespace TextGrammar

open Ron (ReadsBack ReadsFields)

variable {most : Nat}

/-! ## Modifiers and ranges -/

theorem readsBack_modifier (modifier : Modifier) :
    ReadsBack most Modifier.reader (.unit modifier.variantName) modifier := by
  cases modifier <;> exact Ron.readsBack_unit (by decide) (by rfl)

theorem readsBack_modifiers (modifiers : List Modifier) :
    ReadsBack most (Ron.Reader.list Modifier.reader)
      (.list (modifiers.map fun m => .unit m.variantName)) modifiers := by
  apply ReadsBack.list
  rw [List.forall₂_map_left_iff, List.forall₂_same]
  exact fun modifier _ => readsBack_modifier modifier

/-- A range of any kind reads back by its two bounds. -/
theorem readsBack_bounds {α : Type} {reader : Ron.Reader α} {written : α → Ron} {name : String}
    {after : String → Ron.Reader DrawRange} {make : α → α → DrawRange}
    (h : ∀ bound, ReadsBack most reader (written bound) bound)
    (hname : Ron.isPlainName name.toList = true)
    (hafter : after name = do
      let (low, high) ← boundsReader reader
      pure (make low high)) (low high : α) :
    ReadsBack most (Ron.Reader.variant after)
      (.record name [⟨"low", written low⟩, ⟨"high", written high⟩]) (make low high) := by
  refine ReadsFields.readsBack_named (some low, some high) ?_ (List.cons_ne_nil _ _) hname
    (hafter.trans (bind_assoc _ _ _)) rfl
  exact .cons (by decide) (h low) rfl (.cons (by decide) (h high) rfl (.nil _))

theorem readsBack_range (range : DrawRange) :
    ReadsBack most DrawRange.reader range.toRon range := by
  cases range with
  | number low high => exact readsBack_bounds Ron.readsBack_signed (by decide) rfl low high
  | letter low high => exact readsBack_bounds Ron.readsBack_char (by decide) rfl low high

/-! ## Rules -/

theorem allToRon_segments (segments : List Segment) :
    Segment.allToRon segments = segments.map Segment.toRon := by
  induction segments with
  | nil => rfl
  | cons segment segments ih => rw [Segment.allToRon, ih, List.map_cons]

theorem allToRon_rules (rules : List Rule) : Rule.allToRon rules = rules.map Rule.toRon := by
  induction rules with
  | nil => rfl
  | cons rule rules ih => rw [Rule.allToRon, ih, List.map_cons]

section

variable {inner : Ron.Reader Segment}

theorem readsBack_segments (h : ∀ segment, ReadsBack most inner segment.toRon segment)
    (segments : List Segment) :
    ReadsBack most (Ron.Reader.list inner) (.list (Segment.allToRon segments)) segments := by
  apply ReadsBack.list
  rw [allToRon_segments, List.forall₂_map_left_iff, List.forall₂_same]
  exact fun segment _ => h segment

theorem readsBack_target (h : ∀ segment, ReadsBack most inner segment.toRon segment)
    (target : Target) : ReadsBack most (Target.reader inner) target.toRon target := by
  apply ReadsBack.mono _ (Nat.le_succ most)
  cases target with
  | symbol name => exact (Ron.readsBack_string name).variant Target.symbol (by decide) rfl
  | dereference segment => exact (h segment).variant Target.dereference (by decide) rfl
  | quoted text => exact (Ron.readsBack_string text).variant Target.quoted (by decide) rfl
  | pattern segments => exact (readsBack_segments h segments).variant Target.pattern (by decide) rfl
  | range range => exact (readsBack_range range).variant Target.range (by decide) rfl

theorem readsBack_reference (h : ∀ segment, ReadsBack most inner segment.toRon segment)
    (target : Target) (modifiers : List Modifier) :
    ReadsBack most (referenceReader inner false) (.record "" [⟨"target", target.toRon⟩,
      ⟨"modifiers", .list (modifiers.map fun m => .unit m.variantName)⟩])
      (.reference target modifiers) := by
  refine ReadsFields.readsBack (some target, some modifiers) ?_ (List.cons_ne_nil _ _) rfl
  exact .cons (by decide) (readsBack_target h target) rfl
    (.cons (by decide) (readsBack_modifiers modifiers) rfl (.nil _))

theorem readsBack_ruleWith (h : ∀ segment, ReadsBack most inner segment.toRon segment)
    (rule : Rule) : ReadsBack most (Rule.readerWith inner) rule.toRon rule := by
  obtain ⟨segments, weight⟩ := rule
  refine ReadsFields.readsBack (some segments, some weight) ?_ (List.cons_ne_nil _ _) rfl
  exact .cons (by decide) (readsBack_segments h segments) rfl
    (.cons (by decide) (Ron.readsBack_float weight) rfl (.nil _))

end

/-! ## Segments and symbols -/

/-- A segment reads back at any number of levels: where the levels run out, so does the room. -/
theorem readsBack_segment (levels : Nat) (segment : Segment) :
    ReadsBack levels (Segment.readerUpTo levels) segment.toRon segment := by
  induction levels generalizing segment with
  | zero =>
    obtain ⟨name, payload, htoRon, hname⟩ : ∃ name payload, segment.toRon = .variant name payload ∧
        Ron.isPlainName name.toList = true := by
      cases segment <;> exact ⟨_, _, rfl, by decide⟩
    rw [htoRon]
    refine ⟨fun indent => ((Ron.opens_of_isPlainName hname).append _).append _, ?_⟩
    intro indent rest _ room hroom
    rw [if_neg (by rw [Ron.readingDepth]; omega)]
    rfl
  | succ levels ih =>
    cases segment with
    | literal text => exact (Ron.readsBack_string text).variant Segment.literal (by decide) rfl
    | reference target modifiers =>
      exact (readsBack_reference ih target modifiers).variant id (by decide) (id_map _).symm
    | choice branches =>
      have hbranches : ReadsBack levels
          (Ron.Reader.list (Rule.readerWith (Segment.readerUpTo levels)))
          (.list (Rule.allToRon branches)) branches := by
        apply ReadsBack.list
        rw [allToRon_rules, List.forall₂_map_left_iff, List.forall₂_same]
        exact fun rule _ => readsBack_ruleWith ih rule
      exact hbranches.variant Segment.choice (by decide) rfl

theorem readsBack_symbol {symbol : Symbol} (hline : symbol.line < UInt64.size) :
    ReadsBack Ron.nestingLimit Symbol.reader symbol.toRon symbol := by
  obtain ⟨name, rules, line⟩ := symbol
  have hrules : ReadsBack Ron.nestingLimit (Ron.Reader.list Rule.reader)
      (.list (Rule.allToRon rules)) rules := by
    apply ReadsBack.list
    rw [allToRon_rules, List.forall₂_map_left_iff, List.forall₂_same]
    exact fun rule _ => readsBack_ruleWith (readsBack_segment Ron.nestingLimit) rule
  refine ReadsFields.readsBack (some name, some rules, some line) ?_ (List.cons_ne_nil _ _) rfl
  exact .cons (by decide) (Ron.readsBack_string name) rfl (.cons (by decide) hrules rfl
    (.cons (by decide) (Ron.readsBack_word hline) rfl (.nil _)))

/-! ## Grammars -/

/-- A grammar whose lines are numbers of 64 bits is loaded from its text when there is room for
it, and only then. -/
theorem load?_write {g : Grammar} (hlines : ∀ symbol ∈ g.symbols, symbol.line < UInt64.size) :
    Grammar.load? (String.ofList (g.toRon.write 0)) =
      if g.toRon.readingDepth ≤ Ron.nestingLimit then some g else none := by
  have hsymbols : ReadsBack Ron.nestingLimit (Ron.Reader.list Symbol.reader) g.toRon g.symbols := by
    apply ReadsBack.list
    rw [List.forall₂_map_left_iff, List.forall₂_same]
    exact fun symbol hsymbol => readsBack_symbol (hlines symbol hsymbol)
  have htakes := (hsymbols.takes 0 [] Ron.ends_nil).map Grammar.mk
  rw [List.append_nil] at htakes
  refine Ron.Reader.readText_of_takes (hsymbols.opens 0) ?_ htakes
  have hbracket := Ron.head?_write_list (g.symbols.map Symbol.toRon) 0
  exact fun hhash => absurd (hbracket.symm.trans hhash) (by decide)

theorem save?_eq (g : Grammar) :
    g.save? = if g.toRon.nesting ≤ Ron.nestingLimit then some (String.ofList (g.toRon.write 0))
      else none := rfl

/-- Saving and then loading gives the grammar back, when it nests no deeper than may be written and
needs no more room than there is to read it. -/
theorem load?_of_save? {g : Grammar} (hlines : ∀ symbol ∈ g.symbols, symbol.line < UInt64.size)
    {text : String} (h : g.save? = some text) :
    Grammar.load? text = if g.toRon.readingDepth ≤ Ron.nestingLimit then some g else none := by
  rw [save?_eq] at h
  split at h
  · rw [← Option.some.inj h]
    exact load?_write hlines
  · exact absurd h (by simp)

/-- The law of saving. A grammar of any symbols can be saved and loaded if and only if it keeps to
the limits of the writer and of the reader, and what is loaded is the grammar that was saved, in
which a name finds the first symbol that has it. -/
theorem saved_grammars_are_loaded_as_they_were {symbols : List Symbol}
    (hlines : ∀ symbol ∈ symbols, symbol.line < UInt64.size) :
    ((∃ text loaded, (Grammar.mk symbols).save? = some text ∧ Grammar.load? text = some loaded) ↔
      (Grammar.mk symbols).toRon.nesting ≤ Ron.nestingLimit ∧
        (Grammar.mk symbols).toRon.readingDepth ≤ Ron.nestingLimit) ∧
    ∀ text loaded, (Grammar.mk symbols).save? = some text → Grammar.load? text = some loaded →
      loaded.symbols = symbols ∧
      ∀ name symbol, loaded.symbol? name = some symbol ↔
        ∃ before after, symbols = before ++ symbol :: after ∧ symbol.name = name ∧
          ∀ other ∈ before, other.name ≠ name := by
  constructor
  · constructor
    · rintro ⟨text, loaded, hsave, hload⟩
      have hwritten : (Grammar.mk symbols).toRon.nesting ≤ Ron.nestingLimit := by
        by_contra hdeep
        rw [save?_eq, if_neg hdeep] at hsave
        exact absurd hsave (by simp)
      have hread : (Grammar.mk symbols).toRon.readingDepth ≤ Ron.nestingLimit := by
        by_contra hdeep
        rw [load?_of_save? hlines hsave, if_neg hdeep] at hload
        exact absurd hload (by simp)
      exact ⟨hwritten, hread⟩
    · rintro ⟨hwritten, hread⟩
      have hsave := (save?_eq ⟨symbols⟩).trans (if_pos hwritten)
      exact ⟨_, _, hsave, (load?_of_save? hlines hsave).trans (if_pos hread)⟩
  · intro text loaded hsave hload
    have hsame : loaded = ⟨symbols⟩ := by
      rw [load?_of_save? hlines hsave] at hload
      split at hload
      · exact (Option.some.inj hload).symm
      · exact absurd hload (by simp)
    subst hsame
    refine ⟨rfl, fun name symbol => ?_⟩
    rw [Grammar.symbol?, List.find?_eq_some_iff_append]
    simp only [beq_iff_eq, Bool.not_eq_true', beq_eq_false_iff_ne]
    constructor
    · rintro ⟨hname, before, after, hsplit, hbefore⟩
      exact ⟨before, after, hsplit, hname, hbefore⟩
    · rintro ⟨before, after, hsplit, hname, hbefore⟩
      exact ⟨hname, before, after, hsplit, hbefore⟩

/-- Symbols of all kinds: two of one name, one of no name, rules that say nothing, texts that have
to be escaped, the ends of both kinds of ranges, and weights that no source states. -/
def oddments : List Symbol :=
  [⟨"twice", [⟨[], .infinite true⟩], UInt64.size - 1⟩,
    ⟨"twice", [⟨[.literal "a\n\x00\"'\\é\u200d{}"], .finite true ⟨0, fits_zero⟩⟩], 3⟩,
    ⟨"", [], 0⟩,
    ⟨"two words", [⟨[.choice [], .choice [⟨[.reference (.pattern []) Modifier.all], .one⟩],
      .reference (.dereference (.literal "")) [.title, .title],
      .reference (.quoted "[]") [], .reference (.symbol "nowhere") [],
      .reference (.range (.number Int64.minValue Int64.maxValue)) [],
      .reference (.range (.letter '\x00' '\'')) []], .infinite false⟩], 1⟩]

theorem oddments_are_loaded_as_they_were :
    (∀ symbol ∈ oddments, symbol.line < UInt64.size) ∧
    ∃ text loaded, (Grammar.mk oddments).save? = some text ∧ Grammar.load? text = some loaded ∧
      loaded.symbols = oddments ∧
      loaded.symbol? "twice" = some ⟨"twice", [⟨[], .infinite true⟩], UInt64.size - 1⟩ := by
  have hlines : ∀ symbol ∈ oddments, symbol.line < UInt64.size := by decide
  obtain ⟨hlimits, hloaded⟩ := saved_grammars_are_loaded_as_they_were hlines
  obtain ⟨text, loaded, hsave, hload⟩ := hlimits.mpr ⟨by decide, by decide⟩
  obtain ⟨hsymbols, hnames⟩ := hloaded text loaded hsave hload
  refine ⟨hlines, text, loaded, hsave, hload, hsymbols, (hnames _ _).mpr ?_⟩
  exact ⟨[], _, rfl, rfl, fun other hother => absurd hother List.not_mem_nil⟩

end TextGrammar
