-- What stands at the two ends of a rule's text. A line of source is trimmed before it is read, so a
-- rule neither starts nor ends with white space that has no escape; nor does its text when it is
-- written again.
import TextGrammar.Proofs.Outline
import TextGrammar.Proofs.ReadCanonical
import TextGrammar.Proofs.RoundTrip

namespace TextGrammar

/-! ## Texts that trimming leaves as they are -/

/-- There is no white space at either end. -/
structure Sealed (cs : List Char) : Prop where
  start : ∀ c ∈ cs.head?, Unicode.isWhiteSpace c = false
  stop : ∀ c ∈ cs.getLast?, Unicode.isWhiteSpace c = false

theorem trimStart_of_start {cs : List Char} (h : ∀ c ∈ cs.head?, Unicode.isWhiteSpace c = false) :
    trimStart cs = cs := by
  cases cs with
  | nil => rfl
  | cons c cs => simp [trimStart, h c (by simp)]

theorem trimEnd_of_stop {cs : List Char}
    (h : ∀ c ∈ cs.getLast?, Unicode.isWhiteSpace c = false) : trimEnd cs = cs := by
  have hreverse : trimStart cs.reverse = cs.reverse :=
    trimStart_of_start (by rwa [List.head?_reverse])
  unfold trimStart at hreverse
  rw [trimEnd, hreverse, List.reverse_reverse]

theorem stop_trimEnd (cs : List Char) :
    ∀ c ∈ (trimEnd cs).getLast?, Unicode.isWhiteSpace c = false := by
  intro c hc
  unfold trimEnd at hc
  rw [List.getLast?_reverse, Option.mem_def] at hc
  have hhead := List.head?_dropWhile_not Unicode.isWhiteSpace cs.reverse
  rw [hc] at hhead
  simpa using hhead

theorem start_trimStart (cs : List Char) :
    ∀ c ∈ (trimStart cs).head?, Unicode.isWhiteSpace c = false := by
  intro c hc
  unfold trimStart at hc
  rw [Option.mem_def] at hc
  have hhead := List.head?_dropWhile_not Unicode.isWhiteSpace cs
  rw [hc] at hhead
  simpa using hhead

theorem mem_getLast?_of_suffix {α : Type} {x : α} {xs ys : List α} (h : xs <:+ ys)
    (hx : x ∈ xs.getLast?) : x ∈ ys.getLast? := by
  obtain ⟨before, rfl⟩ := h
  rw [Option.mem_def, List.getLast?_append]
  exact Option.or_eq_some_iff.mpr (Or.inl hx)

theorem mem_head?_of_isPrefix {α : Type} {x : α} {xs ys : List α} (h : xs <+: ys)
    (hx : x ∈ xs.head?) : x ∈ ys.head? := by
  obtain ⟨after, rfl⟩ := h
  rw [Option.mem_def, List.head?_append]
  exact Option.or_eq_some_iff.mpr (Or.inl hx)

/-- The text of a rule on its line is sealed. -/
theorem sealed_of_ofRaw? {raw : List Char} {indent : Nat} {text : String}
    (h : LineKind.ofRaw? raw = some (.rule indent text)) : Sealed text.toList := by
  unfold LineKind.ofRaw? at h
  dsimp only at h
  split at h
  · cases h
  · split at h
    · cases h
    · cases h
      rw [String.toList_ofList]
      refine ⟨start_trimStart _, fun c hc => stop_trimEnd (stripComment raw) c ?_⟩
      exact mem_getLast?_of_suffix (List.dropWhile_suffix _) hc

theorem ofRaw?_of_mem_ofRaw {number : Nat} {raws : List (List Char)} {line : Line}
    (h : line ∈ Line.ofRaw number raws) : ∃ raw, LineKind.ofRaw? raw = some line.kind := by
  induction raws generalizing number with
  | nil => cases h
  | cons raw raws ih =>
    unfold Line.ofRaw at h
    split at h
    · rename_i kind hkind
      rcases List.mem_cons.mp h with rfl | h
      · exact ⟨raw, hkind⟩
      · exact ih h
    · exact ih h

/-- Every rule of a source's blocks is sealed. -/
theorem sealed_of_mem_rules {source : String} {block : Block} {line : RuleLine}
    (hblock : block ∈ (outline source).blocks) (hline : line ∈ block.rules) :
    Sealed line.text.toList := by
  have hmem : line.line ∈ plainLines source := by
    rw [← lines_outline, Outline.lines, List.mem_append]
    refine Or.inr (List.mem_flatMap.mpr ⟨block, hblock, ?_⟩)
    exact List.mem_cons_of_mem _ (List.mem_map_of_mem hline)
  obtain ⟨raw, hraw⟩ := ofRaw?_of_mem_ofRaw hmem
  exact sealed_of_ofRaw? hraw

/-! ## Reading -/

/-- A literal at the start does not start with white space, unless that has an escape. -/
def KeepsStart (segments : List Segment) : Prop :=
  ∀ text c, segments.head? = some (.literal text) → text.toList.head? = some c →
    Unicode.isWhiteSpace c = true → c = '\n' ∨ c = '\t'

/-- The last of a list is its first when there is no other, or else the last of the others. -/
theorem mem_getLast?_cons {α : Type} {x y : α} {xs : List α} (h : x ∈ (y :: xs).getLast?) :
    x = y ∧ xs = [] ∨ x ∈ xs.getLast? := by
  rw [Option.mem_def, List.getLast?_cons, Option.some.injEq] at h
  cases hlast : xs.getLast? with
  | none =>
    rw [hlast] at h
    exact Or.inl ⟨h.symm, List.getLast?_eq_none_iff.mp hlast⟩
  | some last =>
    rw [hlast] at h
    exact Or.inr (congrArg some h)

theorem nil_of_resolve {column : Nat} {cs : List Char}
    (h : SourceChar.resolve column cs = .ok []) : cs = [] := by
  fun_cases SourceChar.resolve column cs with
  | case1 => rfl
  | case2 => cases h
  | case3 letter rest meant hmeant =>
    rw [resolve_escape hmeant] at h
    obtain ⟨tail, _, hcons⟩ := map_eq_ok.mp h
    cases hcons
  | case4 letter rest hnone =>
    simp [SourceChar.resolve, hnone] at h
  | case5 c cs hne =>
    rw [resolve_cons hne] at h
    obtain ⟨tail, _, hcons⟩ := map_eq_ok.mp h
    cases hcons

/-- A character is a blank only when it was written as white space, with no escape. -/
theorem start_of_resolve {column : Nat} {cs : List Char} {chars : List SourceChar}
    (h : SourceChar.resolve column cs = .ok chars)
    (hcs : ∀ c ∈ cs.head?, Unicode.isWhiteSpace c = false) :
    ∀ c ∈ chars.head?, c.isBlank = false := by
  fun_cases SourceChar.resolve column cs with
  | case1 =>
    cases h
    simp
  | case2 => cases h
  | case3 letter rest meant hmeant =>
    rw [resolve_escape hmeant] at h
    obtain ⟨tail, _, rfl⟩ := map_eq_ok.mp h
    rintro _ ⟨⟩
    rfl
  | case4 letter rest hnone =>
    simp [SourceChar.resolve, hnone] at h
  | case5 c cs hne =>
    rw [resolve_cons hne] at h
    obtain ⟨tail, _, rfl⟩ := map_eq_ok.mp h
    rintro _ ⟨⟩
    exact hcs c rfl

theorem stop_of_resolve {column : Nat} {cs : List Char} {chars : List SourceChar}
    (h : SourceChar.resolve column cs = .ok chars)
    (hcs : ∀ c ∈ cs.getLast?, Unicode.isWhiteSpace c = false) :
    ∀ c ∈ chars.getLast?, c.isBlank = false := by
  fun_induction SourceChar.resolve column cs generalizing chars with
  | case1 column =>
    cases h
    simp
  | case2 column => cases h
  | case3 column letter rest meant hmeant ih =>
    obtain ⟨tail, htail, rfl⟩ := map_eq_ok.mp h
    intro c hc
    rcases mem_getLast?_cons hc with ⟨rfl, _⟩ | hc
    · rfl
    · refine ih htail (fun d hd => hcs d ?_) c hc
      exact mem_getLast?_of_suffix ((List.suffix_cons _ _).trans (List.suffix_cons _ _)) hd
  | case4 column letter rest hnone => cases h
  | case5 column c cs hne ih =>
    obtain ⟨tail, htail, rfl⟩ := map_eq_ok.mp h
    intro d hd
    rcases mem_getLast?_cons hd with ⟨rfl, rfl⟩ | hd
    · rw [nil_of_resolve htail] at hcs
      exact hcs c rfl
    · exact ih htail (fun e he => hcs e (mem_getLast?_of_suffix (List.suffix_cons _ _) he)) d hd

theorem SourceChar.trimEnd_isPrefix (cs : List SourceChar) : SourceChar.trimEnd cs <+: cs := by
  have hsuffix := List.dropWhile_suffix (l := cs.reverse) SourceChar.isBlank
  rwa [← List.reverse_prefix, List.reverse_reverse] at hsuffix

theorem keepsStart_append_bracketed {a b : List Segment} {s : Segment}
    (hs : s.isLiteral = false) (ha : KeepsStart a) : KeepsStart (a ++ s :: b) := by
  intro text c hhead
  cases a with
  | nil =>
    rw [List.nil_append, List.head?_cons, Option.some.injEq] at hhead
    subst hhead
    cases hs
  | cons first rest => exact ha text c hhead

/-- Literal text starts with its first character. -/
theorem keepsStart_literalSegment {cs : List SourceChar} (hcs : ∀ c ∈ cs, c.Resolved)
    (hstart : ∀ c ∈ cs.head?, c.isBlank = false) : KeepsStart (literalSegment cs) := by
  intro text c hhead hc hws
  unfold literalSegment at hhead
  split at hhead
  · simp at hhead
  · simp only [List.head?_cons, Option.some.injEq, Segment.literal.injEq] at hhead
    subst hhead
    rw [SourceChar.text, String.toList_ofList, SourceChar.plain, List.head?_map] at hc
    obtain ⟨d, hd, rfl⟩ := Option.map_eq_some_iff.mp hc
    exact (hcs d (List.mem_of_mem_head? hd)).lineFeed_or_tab (hstart d hd) hws

section

variable {levels : Nat} {readBlock : BlockReader} {weighted : Bool}
  {literal cs : List SourceChar} {body : RuleBody}

theorem keepsStart_of_readBody (hread : ReadsCanonical levels readBlock)
    (hliteral : ∀ c ∈ literal, c.Resolved) (hcs : ∀ c ∈ cs, c.Resolved)
    (hstart : ∀ c ∈ (literal.reverse ++ cs).head?, c.isBlank = false)
    (h : readBody readBlock weighted literal cs = .ok body) : KeepsStart body.segments := by
  have hreverse : ∀ c ∈ literal.reverse, c.Resolved := fun c hc =>
    hliteral c (List.mem_reverse.mp hc)
  fun_induction readBody readBlock weighted literal cs generalizing body with
  | case1 literal =>
    cases h
    exact keepsStart_literalSegment hreverse (by rwa [List.append_nil] at hstart)
  | case2 literal c cs hopen ih =>
    obtain ⟨inside, hinside, h⟩ := bind_eq_ok.mp h
    obtain ⟨block, hblock, h⟩ := bind_eq_ok.mp h
    obtain ⟨rest, hrest, h⟩ := bind_eq_ok.mp h
    cases h
    obtain ⟨hbracketed, _⟩ := hread _ _ _
      (fun d hd => hcs d (List.mem_cons_of_mem c (List.mem_of_mem_take hd))) hblock
    refine keepsStart_append_bracketed hbracketed (keepsStart_literalSegment hreverse ?_)
    exact fun d hd => hstart d (mem_head?_of_isPrefix (List.prefix_append _ _) hd)
  | case3 literal c cs hopen hclose => cases h
  | case4 literal c cs hopen hclose hcaret hweighted =>
    obtain ⟨weight, hweight, h⟩ := bind_eq_ok.mp h
    cases h
    refine keepsStart_literalSegment ?_ ?_
    · exact fun d hd => hreverse d (SourceChar.trimEnd_subset _ hd)
    · intro d hd
      have hbegins : SourceChar.trimEnd literal.reverse <+: literal.reverse ++ c :: cs :=
        (SourceChar.trimEnd_isPrefix _).trans (List.prefix_append _ _)
      exact hstart d (mem_head?_of_isPrefix hbegins hd)
  | case5 literal c cs hopen hclose hcaret hunweighted => cases h
  | case6 literal c cs hopen hclose hcaret ih =>
    have hresolved : ∀ d ∈ c :: literal, d.Resolved :=
      List.forall_mem_cons.mpr ⟨hcs c List.mem_cons_self, hliteral⟩
    refine ih hresolved (fun d hd => hcs d (List.mem_cons_of_mem c hd)) ?_ h ?_
    · simpa using hstart
    · exact fun d hd => hresolved d (List.mem_reverse.mp hd)

theorem keepsEnd_of_readBody (hread : ReadsCanonical levels readBlock)
    (hliteral : ∀ c ∈ literal, c.Resolved) (hcs : ∀ c ∈ cs, c.Resolved)
    (hstop : ∀ c ∈ (literal.reverse ++ cs).getLast?, c.isBlank = false)
    (h : readBody readBlock weighted literal cs = .ok body) : KeepsEnd body.segments := by
  have hreverse : ∀ c ∈ literal.reverse, c.Resolved := fun c hc =>
    hliteral c (List.mem_reverse.mp hc)
  fun_induction readBody readBlock weighted literal cs generalizing body with
  | case1 literal =>
    cases h
    rw [List.append_nil] at hstop
    have htrim := keepsEnd_literalSegment hreverse
    rwa [trimEnd_of_last hstop] at htrim
  | case2 literal c cs hopen ih =>
    obtain ⟨inside, hinside, h⟩ := bind_eq_ok.mp h
    obtain ⟨block, hblock, h⟩ := bind_eq_ok.mp h
    obtain ⟨rest, hrest, h⟩ := bind_eq_ok.mp h
    cases h
    have htail : ∀ d ∈ cs, d.Resolved := fun d hd => hcs d (List.mem_cons_of_mem c hd)
    obtain ⟨hbracketed, _⟩ := hread _ _ _ (fun d hd => htail d (List.mem_of_mem_take hd)) hblock
    refine keepsEnd_append_bracketed hbracketed (ih inside (by simp)
      (fun d hd => htail d (List.mem_of_mem_drop hd)) (fun d hd => hstop d ?_) hrest (by simp))
    rw [List.reverse_nil, List.nil_append] at hd
    exact mem_getLast?_of_suffix ((List.drop_suffix _ _).trans
      ((List.suffix_cons _ _).trans (List.suffix_append _ _))) hd
  | case3 literal c cs hopen hclose => cases h
  | case4 literal c cs hopen hclose hcaret hweighted =>
    obtain ⟨weight, hweight, h⟩ := bind_eq_ok.mp h
    cases h
    exact keepsEnd_literalSegment hreverse
  | case5 literal c cs hopen hclose hcaret hunweighted => cases h
  | case6 literal c cs hopen hclose hcaret ih =>
    have hresolved : ∀ d ∈ c :: literal, d.Resolved :=
      List.forall_mem_cons.mpr ⟨hcs c List.mem_cons_self, hliteral⟩
    refine ih hresolved (fun d hd => hcs d (List.mem_cons_of_mem c hd)) ?_ h ?_
    · simpa using hstop
    · exact fun d hd => hresolved d (List.mem_reverse.mp hd)

end

/-- What is read from a sealed text keeps its start and its end. -/
theorem keeps_of_read {column : Nat} {cs : List Char} {rule : Rule} (hsealed : Sealed cs)
    (h : Rule.read column cs = .ok rule) : KeepsStart rule.segments ∧ KeepsEnd rule.segments := by
  obtain ⟨chars, hchars, h⟩ := bind_eq_ok.mp h
  obtain ⟨body, hbody, h⟩ := bind_eq_ok.mp h
  cases h
  have hread := canonical_of_readNested nestingLimit
  have hresolved := SourceChar.resolved_of_resolve hchars
  exact ⟨keepsStart_of_readBody hread (by simp) hresolved
      (start_of_resolve hchars hsealed.start) hbody,
    keepsEnd_of_readBody hread (by simp) hresolved (stop_of_resolve hchars hsealed.stop) hbody⟩

/-! ## Writing -/

theorem escapeOne_ne_nil (specials : List Char) (c : Char) : escapeOne specials c ≠ [] := by
  unfold escapeOne
  split_ifs <;> exact List.cons_ne_nil _ _

/-- White space stands in what is written for a character only when it is that character, and has
no escape. -/
theorem space_of_escapeOne {c d : Char} (h : d ∈ escapeOne specialChars c)
    (hws : Unicode.isWhiteSpace d = true) : c = d ∧ c ≠ '\n' ∧ c ≠ '\t' := by
  have hmark : (('n' :: 't' :: escapeChar :: specialChars).all
      fun e => !Unicode.isWhiteSpace e) = true := by decide
  have hnone : d ∉ 'n' :: 't' :: escapeChar :: specialChars := by
    intro hd
    have hfalse := List.all_eq_true.mp hmark d hd
    rw [hws] at hfalse
    cases hfalse
  simp only [List.mem_cons, not_or] at hnone
  obtain ⟨hn, ht, hescape, hspecials⟩ := hnone
  unfold escapeOne at h
  split_ifs at h with hfeed htab hspecial
  · simp [hn, hescape] at h
  · simp [ht, hescape] at h
  · rcases List.mem_pair.mp h with h | h
    · exact absurd h hescape
    · exact absurd (h ▸ hspecial) hspecials
  · exact ⟨(List.mem_singleton.mp h).symm, hfeed, htab⟩

/-- What states a weight has no white space in it. -/
theorem not_space_of_mem_spellWeight {weight : Double} (h : weight.IsWeight) {c : Char}
    (hc : c ∈ spellWeight weight) : Unicode.isWhiteSpace c = false := by
  obtain ⟨m, rfl⟩ := h
  unfold spellWeight at hc
  split at hc
  · cases hc
  · rcases List.mem_cons.mp hc with rfl | hc
    · decide
    · exact (isClean_of_isDecimal (Double.isDecimal_toText m) c hc).noSpace

theorem spellAll_append (a b : List Segment) :
    Segment.spellAll (a ++ b) = Segment.spellAll a ++ Segment.spellAll b := by
  induction a with
  | nil => rfl
  | cons s a ih => rw [List.cons_append, Segment.spellAll, Segment.spellAll, ih, List.append_assoc]

/-- The text of a row starts with no white space, when its first literal does not. -/
theorem start_spellAll {levels : Nat} {segments : List Segment}
    (hcanonical : ∀ s ∈ segments, s.Canonical levels) (hstart : KeepsStart segments) :
    ∀ c ∈ (Segment.spellAll segments).head?, Unicode.isWhiteSpace c = false := by
  cases segments with
  | nil => simp [Segment.spellAll]
  | cons s segments =>
    intro c hc
    cases hcanonical s List.mem_cons_self with
    | @literal _ text hne =>
      by_contra hws
      rw [Bool.not_eq_false] at hws
      obtain ⟨first, rest, htext⟩ := List.exists_cons_of_ne_nil (mt String.toList_eq_nil_iff.mp hne)
      obtain ⟨d, ds, hd⟩ := List.exists_cons_of_ne_nil (escapeOne_ne_nil specialChars first)
      have hsame : d = c := by
        simpa [Segment.spellAll, Segment.spell, escapeText, htext, hd] using hc
      have hmem : c ∈ escapeOne specialChars first := by
        rw [hd, hsame]
        exact List.mem_cons_self
      obtain ⟨rfl, hfeed, htab⟩ := space_of_escapeOne hmem hws
      rcases hstart text first rfl (by rw [htext]; rfl) hws with h | h
      · exact hfeed h
      · exact htab h
    | reference _ | choice _ _ =>
      simp only [Segment.spellAll, Segment.spell, List.cons_append, List.head?_cons,
        Option.mem_def, Option.some.injEq] at hc
      subst hc
      decide

/-- The text of a row ends with no white space, when its last literal does not. -/
theorem stop_spellAll {levels : Nat} {segments : List Segment}
    (hcanonical : ∀ s ∈ segments, s.Canonical levels) (hend : KeepsEnd segments) :
    ∀ c ∈ (Segment.spellAll segments).getLast?, Unicode.isWhiteSpace c = false := by
  rcases List.eq_nil_or_concat segments with rfl | ⟨before, s, rfl⟩
  · simp [Segment.spellAll]
  · intro c hc
    rw [List.concat_eq_append] at hcanonical hend hc
    rw [spellAll_append, Segment.spellAll, Segment.spellAll, List.append_nil] at hc
    cases hcanonical s (List.mem_append_right _ List.mem_cons_self) with
    | @literal _ text hne =>
      by_contra hws
      rw [Bool.not_eq_false] at hws
      rcases List.eq_nil_or_concat text.toList with htext | ⟨chars, last, htext⟩
      · exact hne (String.toList_eq_nil_iff.mp htext)
      rw [List.concat_eq_append] at htext
      have hspell : Segment.spell (.literal text) =
          chars.flatMap (escapeOne specialChars) ++ escapeOne specialChars last := by
        simp [Segment.spell, escapeText, htext]
      have hmem : c ∈ escapeOne specialChars last := by
        rw [hspell, ← List.append_assoc, Option.mem_def,
          List.getLast?_append_of_ne_nil _ (escapeOne_ne_nil specialChars last)] at hc
        exact List.mem_of_getLast? hc
      obtain ⟨rfl, hfeed, htab⟩ := space_of_escapeOne hmem hws
      rcases hend text last (by simp) (by simp [htext]) hws with h | h
      · exact hfeed h
      · exact htab h
    | reference _ | choice _ _ =>
      rw [Segment.spell, ← List.append_assoc, Option.mem_def, List.getLast?_append_of_ne_nil _
        (List.cons_ne_nil _ _), List.getLast?_singleton, Option.some.injEq] at hc
      subst hc
      decide

/-- A rule that keeps its start and its end is written sealed. -/
theorem sealed_spell {levels : Nat} {rule : Rule} (h : rule.Canonical levels)
    (hstart : KeepsStart rule.segments) (hend : KeepsEnd rule.segments) : Sealed rule.spell := by
  obtain ⟨_, hcanonical, hweight, _⟩ := h
  constructor
  · intro c hc
    rw [Rule.spell, Option.mem_def, List.head?_append, Option.or_eq_some_iff] at hc
    rcases hc with hc | ⟨_, hc⟩
    · exact start_spellAll hcanonical hstart c hc
    · exact not_space_of_mem_spellWeight hweight (List.mem_of_mem_head? hc)
  · intro c hc
    rw [Rule.spell, Option.mem_def, List.getLast?_append, Option.or_eq_some_iff] at hc
    rcases hc with hc | ⟨_, hc⟩
    · exact not_space_of_mem_spellWeight hweight (List.mem_of_getLast? hc)
    · exact stop_spellAll hcanonical hend c hc

end TextGrammar
