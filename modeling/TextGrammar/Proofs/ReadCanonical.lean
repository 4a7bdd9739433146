-- The law of reading: whatever is read is canonical. Reading goes inwards level by level, so the
-- law is carried by an induction on the levels that are left: from a reader of blocks that keeps
-- it comes a reader of brackets that keeps it with one level more.
import TextGrammar.Proofs.Answers
import TextGrammar.Proofs.Canonical
import TextGrammar.Proofs.Compiled
import TextGrammar.Proofs.Scans
import TextGrammar.Source.Compiler

namespace TextGrammar

/-! ## Characters -/

namespace SourceChar

/-- The character is one that resolving gives: if it was escaped, an escape stands for it. -/
def Resolved (c : SourceChar) : Prop :=
  c.escaped = true → c.char = '\n' ∨ c.char = '\t' ∨ c.char ∈ specialChars

theorem resolved_of_escaped? {letter meant : Char} {column : Nat}
    (h : escaped? letter = some meant) : Resolved ⟨meant, true, column⟩ := by
  intro _
  unfold escaped? at h
  split at h
  · exact Or.inl (Option.some.inj h).symm
  · split at h
    · exact Or.inr (Or.inl (Option.some.inj h).symm)
    · split at h
      · rename_i hmem
        cases h
        exact Or.inr (Or.inr hmem)
      · cases h

theorem resolved_of_resolve {column : Nat} {cs : List Char} {chars : List SourceChar}
    (h : resolve column cs = .ok chars) : ∀ c ∈ chars, c.Resolved := by
  fun_induction resolve column cs generalizing chars with
  | case1 column =>
    cases h
    simp
  | case2 column => cases h
  | case3 column letter rest meant hmeant ih =>
    obtain ⟨chars', hrest, rfl⟩ := map_eq_ok.mp h
    intro c hc
    rcases List.mem_cons.mp hc with rfl | hc
    · exact resolved_of_escaped? hmeant
    · exact ih hrest c hc
  | case4 column letter rest hnone => cases h
  | case5 column c cs hne ih =>
    obtain ⟨chars', hrest, rfl⟩ := map_eq_ok.mp h
    intro d hd
    rcases List.mem_cons.mp hd with rfl | hd
    · intro he
      cases he
    · exact ih hrest d hd

/-- Of the characters that escapes stand for, only the line feed and the tab are white space. -/
theorem Resolved.lineFeed_or_tab {c : SourceChar} (hc : c.Resolved) (hnot : c.isBlank = false)
    (hws : Unicode.isWhiteSpace c.char = true) : c.char = '\n' ∨ c.char = '\t' := by
  have hescaped : c.escaped = true := by simpa [isBlank, hws] using hnot
  rcases hc hescaped with h | h | h
  · exact Or.inl h
  · exact Or.inr h
  · have hspecial : (specialChars.all fun d => !Unicode.isWhiteSpace d) = true := by decide
    have hnone := List.all_eq_true.mp hspecial _ h
    rw [hws] at hnone
    cases hnone

theorem not_blank_of_getLast?_trimEnd {cs : List SourceChar} {c : SourceChar}
    (h : (trimEnd cs).getLast? = some c) : c.isBlank = false := by
  unfold trimEnd at h
  rw [List.getLast?_reverse] at h
  have hhead := List.head?_dropWhile_not isBlank cs.reverse
  rw [h] at hhead
  simpa using hhead

theorem trimEnd_subset (cs : List SourceChar) : trimEnd cs ⊆ cs := by
  intro c hc
  unfold trimEnd at hc
  rw [List.mem_reverse] at hc
  exact List.mem_reverse.mp ((List.dropWhile_sublist _).subset hc)

theorem trimStart_subset (cs : List SourceChar) : trimStart cs ⊆ cs :=
  (List.dropWhile_sublist _).subset

end SourceChar

/-! ## Literals -/

theorem canonicalRow_literalSegment {levels : Nat} (cs : List SourceChar) :
    CanonicalRow levels (literalSegment cs) := by
  unfold literalSegment
  split
  · exact ⟨.nil, by simp⟩
  · rename_i hne
    refine ⟨.singleton _, ?_⟩
    intro segment hsegment
    rw [List.mem_singleton.mp hsegment]
    refine .literal ?_
    intro hempty
    rw [SourceChar.text, String.ofList_eq_empty_iff, SourceChar.plain,
      List.map_eq_nil_iff] at hempty
    simp [hempty] at hne

theorem keepsEnd_literalSegment {cs : List SourceChar} (hcs : ∀ c ∈ cs, c.Resolved) :
    KeepsEnd (literalSegment (SourceChar.trimEnd cs)) := by
  intro text c hlast hc hws
  unfold literalSegment at hlast
  split at hlast
  · simp at hlast
  · simp only [List.getLast?_singleton, Option.some.injEq, Segment.literal.injEq] at hlast
    subst hlast
    rw [SourceChar.text, String.toList_ofList, SourceChar.plain, List.getLast?_map] at hc
    obtain ⟨d, hd, rfl⟩ := Option.map_eq_some_iff.mp hc
    have hmem : d ∈ cs := SourceChar.trimEnd_subset cs (List.mem_of_getLast? hd)
    exact (hcs d hmem).lineFeed_or_tab (SourceChar.not_blank_of_getLast?_trimEnd hd) hws

/-! ## Weights and words -/

theorem isWeight_ofUnits {num den : Nat} (h : (Double.ofUnits false num den).isFinite = true) :
    (Double.ofUnits false num den).IsWeight := by
  unfold Double.ofUnits at h ⊢
  split
  · exact ⟨_, rfl⟩
  · rename_i hfits
    simp [hfits, Double.isFinite] at h

theorem isWeight_ofScientific {digits : Nat} {power : Int}
    (h : (Double.ofScientific false digits power).isFinite = true) :
    (Double.ofScientific false digits power).IsWeight := by
  unfold Double.ofScientific at h ⊢
  dsimp only at h ⊢
  split_ifs at h ⊢
  · exact isWeight_ofUnits h
  · cases h
  · exact isWeight_ofUnits h
  · exact isWeight_ofUnits h

theorem isWeight_of_readWeight {column : Nat} {cs : List SourceChar} {weight : Double}
    (h : readWeight column cs = .ok weight) : weight.IsWeight := by
  unfold readWeight at h
  dsimp only at h
  split_ifs at h with hescaped hnegative hdecimal hfinite
  cases h
  exact isWeight_ofScientific hfinite

theorem proper_numberRange (a b : Int64) : (numberRange a b).Proper := by
  unfold numberRange
  split
  · assumption
  · rename_i h
    rw [Int64.not_le] at h
    exact Int64.le_of_lt h

theorem proper_of_readNumbers? {before word : List Char} {range : DrawRange}
    (h : readNumbers? before word = some range) : range.Proper := by
  induction word generalizing before with
  | nil => cases h
  | cons c cs ih =>
    unfold readNumbers? at h
    dsimp only at h
    rcases Option.or_eq_some_iff.mp h with h | ⟨_, h⟩
    · split at h
      · obtain ⟨a, _, h⟩ := Option.bind_eq_some_iff.mp h
        obtain ⟨b, _, rfl⟩ := Option.map_eq_some_iff.mp h
        exact proper_numberRange a b
      · cases h
    · exact ih h

theorem proper_of_letterRange {a b : Char} {range : DrawRange} (ha : a.isAlpha = true)
    (hb : b.isAlpha = true) (h : letterRange a b = .range range) : range.Proper := by
  unfold letterRange at h
  split_ifs at h with hcase hle
  · have hsame : a.isUpper = b.isUpper := by simpa using hcase
    cases h
    exact ⟨hle, ha, hb, hsame⟩
  · have hsame : a.isUpper = b.isUpper := by simpa using hcase
    cases h
    exact ⟨(Char.le_total a b).resolve_left hle, hb, ha, hsame.symm⟩

theorem proper_of_readRange {word : List Char} {range : DrawRange}
    (h : readRange word = .range range) : range.Proper := by
  have hnumbers : ∀ {o : Option DrawRange}, o.elim RangeShape.noRange .range = .range range →
      o = some range := by
    intro o ho
    cases o with
    | none => cases ho
    | some r => exact congrArg some (RangeShape.range.inj ho)
  unfold readRange at h
  split at h
  · rename_i a b
    split_ifs at h with halpha
    · rw [Bool.and_eq_true] at halpha
      exact proper_of_letterRange halpha.1 halpha.2 h
    · exact proper_of_readNumbers? (hnumbers h)
  · exact proper_of_readNumbers? (hnumbers h)

theorem canonical_of_readWord {levels column : Nat} {word : List Char} {target : Target}
    (h : readWord column word = .ok target) : target.Canonical levels := by
  unfold readWord at h
  split at h
  · rename_i range hrange
    cases h
    exact .range (proper_of_readRange hrange)
  · cases h
  · rename_i hnoRange
    split_ifs at h with hname
    cases h
    exact .symbol (by rwa [String.toList_ofList]) (by rwa [String.toList_ofList])

/-! ## Bodies -/

/-- A reader of blocks gives segments in brackets, canonical with `levels` levels. -/
def ReadsCanonical (levels : Nat) (readBlock : BlockReader) : Prop :=
  ∀ column interior segment, (∀ c ∈ interior, c.Resolved) →
    readBlock column interior = .ok segment →
    segment.isLiteral = false ∧ segment.Canonical levels

/-- A body as reading gives it. -/
structure RuleBody.Canonical (levels : Nat) (body : RuleBody) : Prop where
  row : CanonicalRow levels body.segments
  weighted : ∀ weight, body.weight = some weight → weight.IsWeight ∧ KeepsEnd body.segments

theorem RuleBody.Canonical.rule {levels : Nat} {body : RuleBody} (h : body.Canonical levels) :
    body.rule.Canonical levels := by
  obtain ⟨⟨hapart, hsegments⟩, hweighted⟩ := h
  unfold RuleBody.rule
  cases hw : body.weight with
  | none => exact .mk hapart hsegments ⟨_, rfl⟩ (fun hne => absurd rfl hne)
  | some weight =>
    obtain ⟨hweight, hend⟩ := hweighted weight hw
    exact .mk hapart hsegments hweight (fun _ => hend)

/-- Literal text, a bracket and what follows make a body when the latter two are canonical. -/
theorem canonical_append_block {levels : Nat} {literal : List SourceChar} {block : Segment}
    {body : RuleBody} (hbracketed : block.isLiteral = false) (hblock : block.Canonical levels)
    (hbody : body.Canonical levels) :
    RuleBody.Canonical levels
      ⟨literalSegment literal ++ block :: body.segments, body.weight⟩ := by
  obtain ⟨⟨hapart, hsegments⟩, hweighted⟩ := hbody
  have hrow : CanonicalRow levels (literalSegment literal) := canonicalRow_literalSegment literal
  obtain ⟨hapartLiteral, hliteral⟩ := hrow
  refine ⟨⟨apart_append_bracketed hbracketed hapartLiteral hapart, ?_⟩, ?_⟩
  · intro segment hsegment
    rcases List.mem_append.mp hsegment with h | h
    · exact hliteral segment h
    · rcases List.mem_cons.mp h with rfl | h
      · exact hblock
      · exact hsegments segment h
  · intro weight hw
    obtain ⟨hweight, hend⟩ := hweighted weight hw
    exact ⟨hweight, keepsEnd_append_bracketed hbracketed hend⟩

theorem canonical_of_readBody {levels : Nat} {readBlock : BlockReader}
    (hread : ReadsCanonical levels readBlock) {weighted : Bool} {literal cs : List SourceChar}
    {body : RuleBody} (hliteral : ∀ c ∈ literal, c.Resolved) (hcs : ∀ c ∈ cs, c.Resolved)
    (h : readBody readBlock weighted literal cs = .ok body) : body.Canonical levels := by
  fun_induction readBody readBlock weighted literal cs generalizing body with
  | case1 literal =>
    cases h
    exact ⟨canonicalRow_literalSegment _, by simp⟩
  | case2 literal c cs hopen ih =>
    obtain ⟨inside, hinside, h⟩ := bind_eq_ok.mp h
    obtain ⟨block, hblock, h⟩ := bind_eq_ok.mp h
    obtain ⟨rest, hrest, h⟩ := bind_eq_ok.mp h
    cases h
    have htail : ∀ d ∈ cs, d.Resolved := fun d hd => hcs d (List.mem_cons_of_mem c hd)
    obtain ⟨hbracketed, hcanonical⟩ := hread _ _ _
      (fun d hd => htail d (List.mem_of_mem_take hd)) hblock
    refine canonical_append_block hbracketed hcanonical ?_
    exact ih inside (by simp) (fun d hd => htail d (List.mem_of_mem_drop hd)) hrest
  | case3 literal c cs hopen hclose => cases h
  | case4 literal c cs hopen hclose hcaret hweighted =>
    obtain ⟨weight, hweight, h⟩ := bind_eq_ok.mp h
    cases h
    refine ⟨canonicalRow_literalSegment _, ?_⟩
    intro w hw
    cases hw
    refine ⟨isWeight_of_readWeight hweight, keepsEnd_literalSegment ?_⟩
    intro d hd
    exact hliteral d (List.mem_reverse.mp hd)
  | case5 literal c cs hopen hclose hcaret hunweighted => cases h
  | case6 literal c cs hopen hclose hcaret ih =>
    refine ih ?_ (fun d hd => hcs d (List.mem_cons_of_mem c hd)) h
    intro d hd
    rcases List.mem_cons.mp hd with rfl | hd
    · exact hcs d List.mem_cons_self
    · exact hliteral d hd

/-! ## References -/

theorem canonical_of_readTarget {levels : Nat} {readBlock : BlockReader}
    (hread : ReadsCanonical levels readBlock) {first : SourceChar} {cs rest : List SourceChar}
    {target : Target} (hcs : ∀ c ∈ cs, c.Resolved)
    (h : readTarget readBlock first cs = .ok (target, rest)) : target.Canonical levels := by
  unfold readTarget at h
  split_ifs at h with hopen hquote hpattern
  · obtain ⟨inside, _, h⟩ := bind_eq_ok.mp h
    obtain ⟨inner, hinner, h⟩ := bind_eq_ok.mp h
    cases h
    obtain ⟨hbracketed, hcanonical⟩ := hread _ _ _
      (fun d hd => hcs d (List.mem_of_mem_take hd)) hinner
    exact .dereference hbracketed hcanonical
  · obtain ⟨inside, _, h⟩ := bind_eq_ok.mp h
    cases h
    exact .quoted
  · obtain ⟨inside, _, h⟩ := bind_eq_ok.mp h
    obtain ⟨body, hbody, h⟩ := bind_eq_ok.mp h
    cases h
    have hcanonical := canonical_of_readBody hread (by simp)
      (fun d hd => hcs d (List.mem_of_mem_take hd)) hbody
    exact .pattern hcanonical.row.apart hcanonical.row.canonical
  · obtain ⟨word, hword, h⟩ := bind_eq_ok.mp h
    cases h
    exact canonical_of_readWord hword

theorem canonical_of_readReference {levels : Nat} {readBlock : BlockReader}
    (hread : ReadsCanonical levels readBlock) {first : SourceChar} {cs : List SourceChar}
    {segment : Segment} (hcs : ∀ c ∈ cs, c.Resolved)
    (h : readReference readBlock first cs = .ok segment) :
    segment.isLiteral = false ∧ segment.Canonical (levels + 1) := by
  obtain ⟨⟨target, rest⟩, htarget, h⟩ := bind_eq_ok.mp h
  obtain ⟨modifiers, _, h⟩ := bind_eq_ok.mp h
  cases h
  exact ⟨rfl, .reference (canonical_of_readTarget hread hcs htarget)⟩

/-! ## Choices -/

theorem canonical_of_readChoice {levels : Nat} {readBlock : BlockReader}
    (hread : ReadsCanonical levels readBlock) {parts : List (List SourceChar)}
    {segment : Segment} (htwo : 2 ≤ parts.length)
    (hparts : ∀ part ∈ parts, ∀ c ∈ part, c.Resolved)
    (h : readChoice readBlock parts = .ok segment) :
    segment.isLiteral = false ∧ segment.Canonical (levels + 1) := by
  obtain ⟨bodies, hbodies, h⟩ := bind_eq_ok.mp h
  cases h
  have hforall := mapM_eq_ok.mp hbodies
  refine ⟨rfl, .choice ?_ ?_⟩
  · rw [List.length_map, ← hforall.length_eq]
    exact htwo
  · intro rule hrule
    obtain ⟨body, hbody, rfl⟩ := List.mem_map.mp hrule
    obtain ⟨part, hpart, hreads⟩ := exists_of_mem_of_forall₂ hforall hbody
    exact (canonical_of_readBody hread (by simp) (hparts part hpart) hreads).rule

/-! ## Brackets, level by level -/

theorem canonical_of_readBracket {levels : Nat} {readBlock : BlockReader}
    (hread : ReadsCanonical levels readBlock) :
    ReadsCanonical (levels + 1) (readBracket readBlock) := by
  intro column interior segment hinterior h
  have hchoice : ∀ parts, splitBars interior = .ok parts → (∀ part, parts ≠ [part]) →
      readChoice readBlock parts = .ok segment →
      segment.isLiteral = false ∧ segment.Canonical (levels + 1) := by
    intro parts hparts hmany hchoice
    obtain ⟨hne, hmem⟩ := splitBars_parts hparts
    have htwo : 2 ≤ parts.length := by
      match parts, hne, hmany with
      | [part], _, hmany => exact absurd rfl (hmany part)
      | _ :: _ :: _, _, _ => simp
    exact canonical_of_readChoice hread htwo
      (fun part hpart c hc => hinterior c (hmem part hpart c hc)) hchoice
  unfold readBracket at h
  split at h
  · cases h
  · rename_i first cs htrimmed
    have hcs : ∀ c ∈ cs, c.Resolved := by
      intro c hc
      apply hinterior c
      apply SourceChar.trimStart_subset interior
      apply SourceChar.trimEnd_subset
      rw [htrimmed]
      exact List.mem_cons_of_mem _ hc
    split_ifs at h with hquote
    · split at h
      · rename_i segment' hreference
        cases h
        exact canonical_of_readReference hread hcs hreference
      · obtain ⟨parts, hparts, h⟩ := bind_eq_ok.mp h
        split at h
        · cases h
        · rename_i hmany
          exact hchoice parts hparts hmany h
    · obtain ⟨parts, hparts, h⟩ := bind_eq_ok.mp h
      split at h
      · exact canonical_of_readReference hread hcs h
      · rename_i hmany
        exact hchoice parts hparts hmany h

theorem canonical_of_readNested (levels : Nat) : ReadsCanonical levels (readNested levels) := by
  induction levels with
  | zero =>
    intro column interior segment _ h
    cases h
  | succ levels ih => exact canonical_of_readBracket ih

/-! ## Rules -/

theorem canonical_of_read {column : Nat} {cs : List Char} {rule : Rule}
    (h : Rule.read column cs = .ok rule) : rule.Canonical nestingLimit := by
  obtain ⟨chars, hchars, h⟩ := bind_eq_ok.mp h
  obtain ⟨body, hbody, h⟩ := bind_eq_ok.mp h
  cases h
  exact (canonical_of_readBody (canonical_of_readNested nestingLimit) (by simp)
    (SourceChar.resolved_of_resolve hchars) hbody).rule

/-- Every rule of these symbols is canonical. -/
def AllCanonical (symbols : List Symbol) : Prop :=
  ∀ symbol ∈ symbols, ∀ rule ∈ symbol.rules, rule.Canonical nestingLimit

theorem allCanonical_append_singleton {symbols : List Symbol} {symbol : Symbol} :
    AllCanonical (symbols ++ [symbol]) ↔
      AllCanonical symbols ∧ ∀ rule ∈ symbol.rules, rule.Canonical nestingLimit := by
  simp [AllCanonical, or_imp, forall_and]

namespace Draft

theorem allCanonical_heading {draft : Draft} (number : Nat) (name : String)
    (h : AllCanonical draft.symbols) : AllCanonical (draft.heading number name).1.symbols := by
  unfold heading
  dsimp only
  split_ifs
  · exact h
  · exact h
  · exact allCanonical_append_singleton.mpr ⟨h, by simp⟩

theorem allCanonical_rule {draft : Draft} (number indent : Nat) (text : String)
    (h : AllCanonical draft.symbols) : AllCanonical (draft.rule number indent text).1.symbols := by
  obtain ⟨finished, block⟩ := draft
  unfold rule
  dsimp only
  split
  · exact h
  · exact h
  · exact h
  · rename_i symbol sawRule rule hread
    obtain ⟨hfinished, hsymbol⟩ := allCanonical_append_singleton.mp h
    refine allCanonical_append_singleton.mpr ⟨hfinished, ?_⟩
    intro r hr
    rcases List.mem_append.mp hr with hr | hr
    · exact hsymbol r hr
    · rw [List.mem_singleton.mp hr]
      exact canonical_of_read (mapError_eq_ok.mp hread)
  · exact h

theorem allCanonical_step {draft : Draft} (line : Except SyntaxError Line)
    (h : AllCanonical draft.symbols) : AllCanonical (draft.step line).1.symbols := by
  unfold step
  split
  · exact h
  · exact allCanonical_heading _ _ h
  · exact allCanonical_rule _ _ _ h

theorem allCanonical_readFirst {draft last : Draft} {lines : List (Except SyntaxError Line)}
    (hdraft : AllCanonical draft.symbols) (h : draft.readFirst lines = .ok last) :
    AllCanonical last.symbols :=
  keeps_readFirst (P := fun draft => AllCanonical draft.symbols)
    (fun _ line => allCanonical_step line) hdraft h

theorem allCanonical_readAll {draft : Draft} (lines : List (Except SyntaxError Line))
    (h : AllCanonical draft.symbols) : AllCanonical (draft.readAll lines).1.symbols :=
  keeps_readAll (P := fun draft => AllCanonical draft.symbols)
    (fun _ line => allCanonical_step line) lines h

theorem allCanonical_start : AllCanonical start.symbols := by
  simp [AllCanonical, start, symbols]

end Draft

theorem allCanonical_of_compile {source : String} {g : Grammar}
    (h : Grammar.compile source = .ok g) : AllCanonical g.symbols := by
  obtain ⟨draft, hdraft, rfl⟩ := map_eq_ok.mp h
  exact Draft.allCanonical_readFirst Draft.allCanonical_start hdraft

/-! ## The law -/

/-- Every rule that is read is canonical: the rule of a pattern, and each rule of a grammar
that is compiled in either way. -/
theorem what_is_read_is_canonical :
    (∀ pattern rule, Rule.ofPattern pattern = .ok rule → rule.Canonical nestingLimit) ∧
    (∀ source grammar, Grammar.compile source = .ok grammar → AllCanonical grammar.symbols) ∧
    (∀ source grammar, Grammar.validate source = .ok grammar →
      AllCanonical grammar.symbols) := by
  refine ⟨?_, ?_, ?_⟩
  · intro pattern rule h
    exact canonical_of_read (mapError_eq_ok.mp h)
  · exact fun source grammar => allCanonical_of_compile
  · intro source grammar h
    have hall := Draft.allCanonical_readAll (sourceLines source) Draft.allCanonical_start
    unfold Grammar.validate at h
    split at h
    · rename_i draft hdraft
      cases h
      rw [hdraft] at hall
      exact hall
    · cases h

/-- The law at a pattern and at a source that hold a bit of everything. -/
theorem what_is_read_from_a_medley_is_canonical :
    (∃ rule, Rule.ofPattern "a(n) [['big'|x^0]| [[kind].a ] ^2 ][\"[1-6] \\[\".s] ^.5" = .ok rule ∧
      rule.Canonical nestingLimit) ∧
    (∃ grammar, Grammar.compile "kind\n  cat ^2\n  [a-f|[kind].title]\n" = .ok grammar ∧
      AllCanonical grammar.symbols) ∧
    (∃ grammar, Grammar.validate "kind\n  cat ^2\n  [a-f|[kind].title]\n" = .ok grammar ∧
      AllCanonical grammar.symbols) := by
  have hreads : (Rule.ofPattern
      "a(n) [['big'|x^0]| [[kind].a ] ^2 ][\"[1-6] \\[\".s] ^.5").isOk = true := by
    decide +kernel
  have hcompiles : (Grammar.compile
      "kind\n  cat ^2\n  [a-f|[kind].title]\n").isOk = true := by decide +kernel
  have hvalid : (Grammar.validate
      "kind\n  cat ^2\n  [a-f|[kind].title]\n").isOk = true := by decide +kernel
  obtain ⟨hpattern, hcompile, hvalidate⟩ := what_is_read_is_canonical
  obtain ⟨rule, hrule⟩ := exists_of_isOk hreads
  obtain ⟨compiled, hcompiled⟩ := exists_of_isOk hcompiles
  obtain ⟨validated, hvalidated⟩ := exists_of_isOk hvalid
  exact ⟨⟨rule, hrule, hpattern _ rule hrule⟩,
    ⟨compiled, hcompiled, hcompile _ compiled hcompiled⟩,
    ⟨validated, hvalidated, hvalidate _ validated hvalidated⟩⟩

end TextGrammar
