-- What the parts of a rule's text resolve to, and how the readers of words, modifiers and
-- weights answer them. Columns differ from place to place, so a law about written text holds in
-- every column.
import TextGrammar.Proofs.Canonical
import TextGrammar.Proofs.DecimalText
import TextGrammar.Proofs.Scans
import TextGrammar.Rule.Printer

namespace TextGrammar

open SourceChar

/-! ## Resolving -/

theorem resolve_cons {column : Nat} {c : Char} {cs : List Char} (hc : c ≠ escapeChar) :
    resolve column (c :: cs) = (resolve (column + 1) cs).map (⟨c, false, column⟩ :: ·) := by
  rw [resolve.eq_def]
  exact if_neg hc

theorem resolve_escape {column : Nat} {letter meant : Char} {cs : List Char}
    (h : escaped? letter = some meant) :
    resolve column (escapeChar :: letter :: cs) =
      (resolve (column + 2) cs).map (⟨meant, true, column⟩ :: ·) := by
  rw [resolve.eq_def]
  simp only [if_true, h]

theorem resolve_append {column : Nat} {a b : List Char} {as : List SourceChar}
    (h : resolve column a = .ok as) :
    resolve column (a ++ b) = (resolve (column + a.length) b).map (as ++ ·) := by
  fun_induction resolve column a generalizing as with
  | case1 column =>
    cases h
    rw [List.nil_append, List.length_nil, Nat.add_zero]
    cases resolve column b <;> rfl
  | case2 column => cases h
  | case3 column letter rest meant hmeant ih =>
    obtain ⟨tail, htail, rfl⟩ := map_eq_ok.mp h
    have hcolumn : column + 2 + rest.length = column + (escapeChar :: letter :: rest).length := by
      simp only [List.length_cons]
      omega
    rw [List.cons_append, List.cons_append, resolve_escape hmeant, ih htail, hcolumn]
    cases resolve _ b <;> rfl
  | case4 column letter rest hnone => cases h
  | case5 column c cs hne ih =>
    obtain ⟨tail, htail, rfl⟩ := map_eq_ok.mp h
    have hcolumn : column + 1 + cs.length = column + (c :: cs).length := by
      simp only [List.length_cons]
      omega
    rw [List.cons_append, resolve_cons hne, ih htail, hcolumn]
    cases resolve _ b <;> rfl

/-- In every column the text resolves to characters with the property `P`. -/
def Yields (written : List Char) (P : List SourceChar → Prop) : Prop :=
  ∀ column, ∃ cs, resolve column written = .ok cs ∧ P cs

namespace Yields

variable {a b : List Char} {P Q R : List SourceChar → Prop}

theorem nil (h : P []) : Yields [] P := fun _ => ⟨[], rfl, h⟩

theorem mono (h : Yields a P) (hpq : ∀ cs, P cs → Q cs) : Yields a Q := by
  intro column
  obtain ⟨cs, hcs, hp⟩ := h column
  exact ⟨cs, hcs, hpq cs hp⟩

theorem append (ha : Yields a P) (hb : Yields b Q)
    (h : ∀ as bs, P as → Q bs → R (as ++ bs)) : Yields (a ++ b) R := by
  intro column
  obtain ⟨as, has, hp⟩ := ha column
  obtain ⟨bs, hbs, hq⟩ := hb (column + a.length)
  refine ⟨as ++ bs, ?_, h as bs hp hq⟩
  rw [resolve_append has, hbs]
  rfl

/-- A mark on its own is resolved to itself. -/
theorem mark {c : Char} (hc : c ≠ escapeChar) :
    Yields [c] fun cs => ∃ d, cs = [d] ∧ d.is c = true := by
  intro column
  refine ⟨[⟨c, false, column⟩], ?_, ⟨c, false, column⟩, rfl, by simp [is]⟩
  rw [resolve_cons hc]
  rfl

end Yields

/-! ## Marks -/

theorem isPlain_of_is {c : SourceChar} {mark : Char} (h : c.is mark = true)
    (hmark : mark ∉ scanMarks) : c.IsPlain := fun _ hother =>
  is_eq_false h fun heq => hmark (heq ▸ hother)

theorem isBlank_of_is {c : SourceChar} {mark : Char} (h : c.is mark = true)
    (hmark : Unicode.isWhiteSpace mark = false) : c.isBlank = false := by
  simp only [is, Bool.and_eq_true, beq_iff_eq] at h
  simp [SourceChar.isBlank, h.2, hmark]

/-! ## Words -/

/-- The characters of `word`, none of them escaped. -/
structure Unescaped (word : List Char) (cs : List SourceChar) : Prop where
  plain : plain cs = word
  unescaped : ∀ c ∈ cs, c.escaped = false

theorem Unescaped.mem {word : List Char} {cs : List SourceChar} (h : Unescaped word cs)
    {c : SourceChar} (hc : c ∈ cs) : c.char ∈ word := by
  rw [← h.plain]
  exact List.mem_map_of_mem hc

theorem yields_unescaped {word : List Char} (h : ∀ c ∈ word, c ≠ escapeChar) :
    Yields word (Unescaped word) := by
  induction word with
  | nil => exact .nil ⟨rfl, by simp⟩
  | cons c word ih =>
    intro column
    obtain ⟨cs, hcs, hplain, hunescaped⟩ :=
      ih (fun d hd => h d (List.mem_cons_of_mem c hd)) (column + 1)
    refine ⟨⟨c, false, column⟩ :: cs, ?_, ?_, ?_⟩
    · rw [resolve_cons (h c List.mem_cons_self), hcs]
      rfl
    · rw [SourceChar.plain, List.map_cons]
      exact congrArg (c :: ·) hplain
    · intro d hd
      rcases List.mem_cons.mp hd with rfl | hd
      · rfl
      · exact hunescaped d hd

/-- A character that stands for itself wherever it is written, and is no blank. -/
structure IsClean (c : Char) : Prop where
  noMark : c ∉ scanMarks
  noEscape : c ≠ escapeChar
  noSpace : Unicode.isWhiteSpace c = false

/-- A character that a name may hold. -/
def IsNameChar (c : Char) : Prop := (Unicode.isAlphanumeric c || c == '_' || c == '-') = true

theorem Unescaped.isPlain {word : List Char} {cs : List SourceChar} (h : Unescaped word cs)
    (hword : ∀ c ∈ word, IsClean c) : ∀ c ∈ cs, c.IsPlain := by
  intro c hc mark hmark
  have hclean := hword _ (h.mem hc)
  have hne : c.char ≠ mark := fun heq => hclean.noMark (heq ▸ hmark)
  simp [is, hne]

theorem Unescaped.isBlank {word : List Char} {cs : List SourceChar} (h : Unescaped word cs)
    (hword : ∀ c ∈ word, IsClean c) : ∀ c ∈ cs, c.isBlank = false := by
  intro c hc
  simp [SourceChar.isBlank, (hword _ (h.mem hc)).noSpace]

theorem inRanges_disjoint {a b : List (Nat × Nat)} {c : Char}
    (h : ∀ r ∈ a, ∀ s ∈ b, r.2 < s.1 ∨ s.2 < r.1) (ha : Unicode.inRanges a c = true) :
    Unicode.inRanges b c = false := by
  obtain ⟨r, hr, hlow, hhigh⟩ := Unicode.inRanges_iff.mp ha
  rw [← Bool.not_eq_true, Unicode.inRanges_iff]
  rintro ⟨s, hs, hlow', hhigh'⟩
  have hapart := h r hr s hs
  omega

theorem toNat_of_isAlpha {c : Char} (h : c.isAlpha = true) : 65 ≤ c.toNat ∧ c.toNat ≤ 122 := by
  change (decide (c.val ≥ 65 ∧ c.val ≤ 90) ||
    (decide (c.val ≥ 97) && decide (c.val ≤ 122))) = true at h
  simp only [Bool.or_eq_true, Bool.and_eq_true, decide_eq_true_eq, UInt32.le_iff_toNat_le,
    ge_iff_le] at h
  change 65 ≤ c.toNat ∧ c.toNat ≤ 90 ∨ 97 ≤ c.toNat ∧ c.toNat ≤ 122 at h
  omega

theorem isNameChar_of_isDigit {c : Char} (h : c.isDigit = true) : IsNameChar c := by
  obtain ⟨_, hhigh⟩ := toNat_of_isDigit h
  have hascii : c.toNat < 0x80 := by omega
  simp [IsNameChar, Unicode.isAlphanumeric, Unicode.isNumber, hascii, h]

theorem isNameChar_of_isAlpha {c : Char} (h : c.isAlpha = true) : IsNameChar c := by
  obtain ⟨_, hhigh⟩ := toNat_of_isAlpha h
  have hascii : c.toNat < 0x80 := by omega
  simp [IsNameChar, Unicode.isAlphanumeric, Unicode.isAlphabetic, hascii, h]

theorem isNameChar_hyphen : IsNameChar '-' := by
  unfold IsNameChar
  decide

/-- No letter or number of any script is white space. -/
theorem not_isWhiteSpace_of_isAlphanumeric {c : Char} (h : Unicode.isAlphanumeric c = true) :
    Unicode.isWhiteSpace c = false := by
  have hletters : ∀ r ∈ Unicode.alphabeticRanges, ∀ s ∈ Unicode.whiteSpaceRanges,
      r.2 < s.1 ∨ s.2 < r.1 := by decide +kernel
  have hnumbers : ∀ r ∈ Unicode.numberRanges, ∀ s ∈ Unicode.whiteSpaceRanges,
      r.2 < s.1 ∨ s.2 < r.1 := by decide +kernel
  have hword : ∀ r ∈ [(48, 122)], ∀ s ∈ Unicode.whiteSpaceRanges, r.2 < s.1 ∨ s.2 < r.1 := by
    decide
  have hascii (hlow : 48 ≤ c.toNat) (hhigh : c.toNat ≤ 122) : Unicode.isWhiteSpace c = false :=
    inRanges_disjoint hword (by simp [Unicode.inRanges, hlow, hhigh])
  unfold Unicode.isAlphanumeric Unicode.isAlphabetic Unicode.isNumber at h
  rw [Bool.or_eq_true] at h
  by_cases hsmall : c.toNat < 0x80
  · simp only [hsmall, if_true] at h
    rcases h with h | h
    · obtain ⟨hlow, hhigh⟩ := toNat_of_isAlpha h
      exact hascii (by omega) hhigh
    · obtain ⟨hlow, hhigh⟩ := toNat_of_isDigit h
      exact hascii hlow (by omega)
  · simp only [hsmall, if_false] at h
    rcases h with h | h
    · exact inRanges_disjoint hletters h
    · exact inRanges_disjoint hnumbers h

theorem isNameChar_of_isSymbolName {word : List Char} (h : isSymbolName word = true) :
    ∀ c ∈ word, IsNameChar c := by
  rw [isSymbolName, Bool.and_eq_true, List.all_eq_true] at h
  exact h.2

theorem IsNameChar.not_mem {c : Char} {marks : List Char} (h : IsNameChar c)
    (hmarks : (marks.all fun mark =>
      !(Unicode.isAlphanumeric mark || mark == '_' || mark == '-')) = true) : c ∉ marks := by
  intro hc
  have hfalse := List.all_eq_true.mp hmarks c hc
  rw [h] at hfalse
  cases hfalse

/-- A name has no character that carries a meaning where names stand. -/
theorem IsNameChar.clean {c : Char} (h : IsNameChar c) : IsClean c ∧ c ≠ '.' := by
  have hne : c ∉ escapeChar :: '.' :: scanMarks := h.not_mem (by decide)
  simp only [List.mem_cons, not_or] at hne
  obtain ⟨hescape, hpoint, hscan⟩ := hne
  refine ⟨⟨by simpa [scanMarks] using hscan, hescape, ?_⟩, hpoint⟩
  simp only [IsNameChar, Bool.or_eq_true, beq_iff_eq] at h
  rcases h with (h | rfl) | rfl
  · exact not_isWhiteSpace_of_isAlphanumeric h
  · decide
  · decide

/-! ## Escaped text -/

/-- The character stands for itself where the characters `specials` carry a meaning, and it is
no line feed or tab that was not escaped. -/
structure StandsFor (specials : List Char) (c : SourceChar) : Prop where
  noMark : ∀ mark ∈ specials, c.is mark = false
  escaped : c.char = '\n' ∨ c.char = '\t' → c.escaped = true

/-- The characters of the text, each standing for itself. -/
structure Escaped (specials : List Char) (text : List Char) (cs : List SourceChar) : Prop where
  plain : plain cs = text
  stands : ∀ c ∈ cs, StandsFor specials c

/-- The characters of the text, of which the special ones, line feeds and tabs are escaped and no
others. -/
structure JustEscaped (specials : List Char) (text : List Char) (cs : List SourceChar) : Prop where
  plain : plain cs = text
  escaped_iff : ∀ c ∈ cs, c.escaped = true ↔ c.char = '\n' ∨ c.char = '\t' ∨ c.char ∈ specials

theorem JustEscaped.escaped {specials text : List Char} {cs : List SourceChar}
    (h : JustEscaped specials text cs) : Escaped specials text cs where
  plain := h.plain
  stands c hc := by
    refine ⟨fun mark hmark => ?_, fun hline => ?_⟩
    · by_cases hchar : c.char = mark
      · simp [is, (h.escaped_iff c hc).mpr (Or.inr (Or.inr (hchar ▸ hmark)))]
      · simp [is, hchar]
    · rcases hline with hline | htab
      · exact (h.escaped_iff c hc).mpr (Or.inl hline)
      · exact (h.escaped_iff c hc).mpr (Or.inr (Or.inl htab))

theorem yields_escapeOne {specials : List Char} (hsub : specials ⊆ specialChars)
    (hescape : escapeChar ∈ specials) (c : Char) :
    Yields (escapeOne specials c) (JustEscaped specials [c]) := by
  have hone : ∀ letter, escaped? letter = some c → c = '\n' ∨ c = '\t' ∨ c ∈ specials →
      Yields [escapeChar, letter] (JustEscaped specials [c]) := by
    intro letter hletter hspecial column
    refine ⟨[⟨c, true, column⟩], ?_, rfl, by simpa using hspecial⟩
    rw [resolve_escape hletter]
    rfl
  unfold escapeOne
  split_ifs with hline htab hspecial
  · exact hone 'n' (hline ▸ rfl) (Or.inl hline)
  · exact hone 't' (htab ▸ rfl) (Or.inr (Or.inl htab))
  · have hletters : (specialChars.all fun d => escaped? d == some d) = true := by decide
    have hself := List.all_eq_true.mp hletters c (hsub hspecial)
    exact hone c (eq_of_beq hself) (Or.inr (Or.inr hspecial))
  · have hne : c ≠ escapeChar := fun heq => hspecial (heq ▸ hescape)
    intro column
    refine ⟨[⟨c, false, column⟩], ?_, rfl, by simp [hline, htab, hspecial]⟩
    rw [resolve_cons hne]
    rfl

theorem yields_justEscaped {specials : List Char} (hsub : specials ⊆ specialChars)
    (hescape : escapeChar ∈ specials) (text : String) :
    Yields (escapeText specials text) (JustEscaped specials text.toList) := by
  unfold escapeText
  induction text.toList with
  | nil => exact .nil ⟨rfl, by simp⟩
  | cons c cs ih =>
    rw [List.flatMap_cons]
    refine (yields_escapeOne hsub hescape c).append ih ?_
    intro as bs has hbs
    refine ⟨?_, ?_⟩
    · rw [SourceChar.plain, List.map_append]
      exact congrArg₂ (· ++ ·) has.plain hbs.plain
    · intro d hd
      rcases List.mem_append.mp hd with hd | hd
      · exact has.escaped_iff d hd
      · exact hbs.escaped_iff d hd

theorem yields_escapeText {specials : List Char} (hsub : specials ⊆ specialChars)
    (hescape : escapeChar ∈ specials) (text : String) :
    Yields (escapeText specials text) (Escaped specials text.toList) :=
  (yields_justEscaped hsub hescape text).mono fun _ h => h.escaped

/-! ## Ranges -/

theorem isNameChar_of_mem_spellInt {n : Int} {c : Char} (h : c ∈ spellInt n) : IsNameChar c := by
  unfold spellInt at h
  split_ifs at h
  · rcases List.mem_cons.mp h with rfl | h
    · exact isNameChar_hyphen
    · exact isNameChar_of_isDigit (isDigit_of_mem_spellNat h)
  · exact isNameChar_of_isDigit (isDigit_of_mem_spellNat h)

theorem isNameChar_of_mem_spell {range : DrawRange} (hproper : range.Proper) {c : Char}
    (h : c ∈ range.spell) : IsNameChar c := by
  cases range with
  | number low high =>
    rcases List.mem_append.mp h with h | h
    · exact isNameChar_of_mem_spellInt h
    · rcases List.mem_cons.mp h with rfl | h
      · exact isNameChar_hyphen
      · exact isNameChar_of_mem_spellInt h
  | letter low high =>
    obtain ⟨_, hlow, hhigh, _⟩ := hproper
    simp only [DrawRange.spell, List.mem_cons, List.not_mem_nil, or_false] at h
    rcases h with rfl | rfl | rfl
    · exact isNameChar_of_isAlpha hlow
    · exact isNameChar_hyphen
    · exact isNameChar_of_isAlpha hhigh

theorem readNumbers?_pass {before cs rest : List Char} (h : ∀ c ∈ cs, c ≠ '-') :
    readNumbers? before (cs ++ rest) = readNumbers? (before ++ cs) rest := by
  induction cs generalizing before with
  | nil => simp
  | cons c cs ih =>
    have hc := h c List.mem_cons_self
    rw [List.cons_append, readNumbers?, if_neg hc, Option.none_or,
      ih fun d hd => h d (List.mem_cons_of_mem c hd), List.append_assoc, List.singleton_append]

/-- Two numbers are read from their digits with a hyphen between them, whatever their order. -/
theorem readNumbers?_spell (a b : Int64) :
    readNumbers? [] (spellInt a.toInt ++ '-' :: spellInt b.toInt) = some (numberRange a b) := by
  have hdigits : ∀ c ∈ spellNat a.toInt.natAbs, c ≠ '-' := fun c hc =>
    ne_hyphen_of_isDigit (isDigit_of_mem_spellNat hc)
  have hhere : readNumbers? (spellInt a.toInt) ('-' :: spellInt b.toInt) =
      some (numberRange a b) := by
    rw [readNumbers?, if_pos rfl, readInt64?_spellInt, readInt64?_spellInt]
    rfl
  by_cases hneg : a.toInt < 0
  · -- The minus is a hyphen too, but no number stands in front of it.
    have hspell : spellInt a.toInt = '-' :: spellNat a.toInt.natAbs := if_pos hneg
    have hempty : readInt64? [] = none := rfl
    rw [hspell, List.cons_append, readNumbers?, if_pos rfl, hempty, Option.bind_none,
      Option.none_or, List.nil_append, readNumbers?_pass hdigits, List.singleton_append, ← hspell]
    exact hhere
  · have hspell : spellInt a.toInt = spellNat a.toInt.natAbs := if_neg hneg
    rw [hspell, readNumbers?_pass hdigits, List.nil_append, ← hspell]
    exact hhere

theorem readRange_of_head {first : Char} {cs : List Char} (h : first.isAlpha = false) :
    readRange (first :: cs) = (readNumbers? [] (first :: cs)).elim .noRange .range := by
  unfold readRange
  split
  · rename_i a b heq
    cases heq
    simp [h]
  · rfl

/-- No number starts with a letter. -/
theorem exists_head_spellInt (n : Int) :
    ∃ first cs, spellInt n = first :: cs ∧ first.isAlpha = false := by
  obtain ⟨first, cs, hspell⟩ := List.exists_cons_of_ne_nil (spellNat_ne_nil n.natAbs)
  by_cases hneg : n < 0
  · exact ⟨'-', spellNat n.natAbs, if_pos hneg, by decide⟩
  · refine ⟨first, cs, by rw [spellInt, if_neg hneg, hspell], ?_⟩
    have hfirst : first.isDigit = true := isDigit_of_mem_spellNat (hspell ▸ List.mem_cons_self)
    obtain ⟨_, hhigh⟩ := toNat_of_isDigit hfirst
    rw [← Bool.not_eq_true]
    intro halpha
    obtain ⟨hlow, _⟩ := toNat_of_isAlpha halpha
    omega

/-- Two numbers with a hyphen between them are the range between the two. -/
theorem readRange_numbers (a b : Int64) :
    readRange (spellInt a.toInt ++ '-' :: spellInt b.toInt) = .range (numberRange a b) := by
  obtain ⟨first, cs, hspell, hfirst⟩ := exists_head_spellInt a.toInt
  have hread := readNumbers?_spell a b
  rw [hspell, List.cons_append] at hread ⊢
  rw [readRange_of_head hfirst, hread]
  rfl

/-- A range is read back from its two bounds. -/
theorem readRange_spell {range : DrawRange} (h : range.Proper) :
    readRange range.spell = .range range := by
  cases range with
  | number low high =>
    have hle : low ≤ high := h
    rw [DrawRange.spell, readRange_numbers, numberRange, if_pos hle]
  | letter low high =>
    obtain ⟨hle, hlow, hhigh, hcase⟩ := h
    simp [DrawRange.spell, readRange, letterRange, hle, hlow, hhigh, hcase]

/-! ## Modifiers -/

/-- Nothing, or something that starts with a point: what may follow a target. -/
def Dotted (cs : List SourceChar) : Prop := ∀ c ∈ cs.head?, c.is '.' = true

theorem takeWhile_dotted {word rest : List SourceChar} (hword : ∀ c ∈ word, c.is '.' = false)
    (hrest : Dotted rest) : (word ++ rest).takeWhile (fun c => !c.is '.') = word := by
  rw [List.takeWhile_append_of_pos (by simpa using hword)]
  cases rest with
  | nil => simp
  | cons c cs =>
    have hc : c.is '.' = true := hrest c (by simp)
    simp [hc]

theorem dropWhile_dotted {word rest : List SourceChar} (hword : ∀ c ∈ word, c.is '.' = false)
    (hrest : Dotted rest) : (word ++ rest).dropWhile (fun c => !c.is '.') = rest := by
  rw [List.dropWhile_append_of_pos (by simpa using hword)]
  cases rest with
  | nil => simp
  | cons c cs =>
    have hc : c.is '.' = true := hrest c (by simp)
    simp [hc]

/-- The characters of some modifiers. -/
structure ReadsModifiers (modifiers : List Modifier) (cs : List SourceChar) : Prop where
  read : readModifiers cs = .ok modifiers
  dotted : Dotted cs
  isPlain : ∀ c ∈ cs, c.IsPlain
  isBlank : ∀ c ∈ cs, c.isBlank = false

theorem isClean_point : IsClean '.' := ⟨by decide, by decide, by decide⟩

theorem isAlpha_of_mem_token {m : Modifier} {c : Char} (h : c ∈ m.token.toList) :
    c.isAlpha = true := by
  have hall : m.token.toList.all Char.isAlpha = true := by cases m <;> decide
  exact List.all_eq_true.mp hall c h

theorem yields_modifiers (modifiers : List Modifier) :
    Yields (Modifier.spellAll modifiers) (ReadsModifiers modifiers) := by
  induction modifiers with
  | nil =>
    refine .nil ⟨?_, by simp [Dotted], by simp, by simp⟩
    rw [readModifiers]
  | cons m modifiers ih =>
    have hclean : ∀ c ∈ m.token.toList, IsClean c ∧ c ≠ '.' := fun c hc =>
      (isNameChar_of_isAlpha (isAlpha_of_mem_token hc)).clean
    have htoken : Yields m.token.toList (Unescaped m.token.toList) :=
      yields_unescaped fun c hc => (hclean c hc).1.noEscape
    have hpoint : Yields ['.'] fun cs => ∃ d, cs = [d] ∧ d.is '.' = true := .mark (by decide)
    have htail : Yields (m.token.toList ++ Modifier.spellAll modifiers) fun cs =>
        ∃ token rest, cs = token ++ rest ∧ Unescaped m.token.toList token ∧
          ReadsModifiers modifiers rest :=
      htoken.append ih fun token rest ht hr => ⟨token, rest, rfl, ht, hr⟩
    refine hpoint.append htail ?_
    rintro _ _ ⟨point, rfl, hpoint⟩ ⟨token, rest, rfl, htoken, hrest⟩
    have hword : ∀ c ∈ token, c.is '.' = false := by
      intro c hc
      simp [is, (hclean _ (htoken.mem hc)).2]
    have htext : SourceChar.text token = m.token := by
      rw [SourceChar.text, htoken.plain, String.ofList_toList]
    rw [List.singleton_append]
    refine ⟨?_, by simp [Dotted, hpoint], ?_, ?_⟩
    · rw [readModifiers, if_pos hpoint]
      simp only [takeWhile_dotted hword hrest.dotted, dropWhile_dotted hword hrest.dotted, htext,
        Modifier.ofToken?_token, hrest.read]
      rfl
    · intro c hc
      rcases List.mem_cons.mp hc with rfl | hc
      · exact isPlain_of_is hpoint (by decide)
      · rcases List.mem_append.mp hc with hc | hc
        · exact htoken.isPlain (fun d hd => (hclean d hd).1) c hc
        · exact hrest.isPlain c hc
    · intro c hc
      rcases List.mem_cons.mp hc with rfl | hc
      · exact isBlank_of_is hpoint (by decide)
      · rcases List.mem_append.mp hc with hc | hc
        · exact htoken.isBlank (fun d hd => (hclean d hd).1) c hc
        · exact hrest.isBlank c hc

/-! ## Weights -/

theorem isClean_of_isDecimal {cs : List Char} (h : isDecimal cs = true) : ∀ c ∈ cs, IsClean c := by
  intro c hc
  rcases mem_of_isDecimal h hc with h | rfl
  · exact (isNameChar_of_isDigit h).clean.1
  · exact isClean_point

theorem trim_of_clean {cs : List Char} (h : ∀ c ∈ cs, IsClean c) : trim cs = cs := by
  have hdrop : ∀ ds : List Char, ds ⊆ cs → ds.dropWhile Unicode.isWhiteSpace = ds := by
    intro ds hds
    cases ds with
    | nil => rfl
    | cons c ds => simp [(h c (hds List.mem_cons_self)).noSpace]
  rw [trim, trimStart, hdrop cs fun _ hc => hc, trimEnd,
    hdrop cs.reverse fun _ hc => List.mem_reverse.mp hc, List.reverse_reverse]

/-- A weight is read back from its decimal. -/
theorem readWeight_toText {column : Nat} {m : Magnitude} {cs : List SourceChar}
    (h : Unescaped (Double.toText (.finite false m)) cs) :
    readWeight column cs = .ok (.finite false m) := by
  have hdecimal := Double.isDecimal_toText m
  have hclean := isClean_of_isDecimal hdecimal
  have hescaped : cs.any (·.escaped) = false := by simpa using h.unescaped
  have hnegative : ∀ ds, Double.toText (.finite false m) ≠ '-' :: ds := by
    intro ds heq
    rw [heq] at hdecimal
    simp [isDecimal] at hdecimal
  unfold readWeight
  rw [h.plain, trim_of_clean hclean]
  dsimp only
  rw [hescaped, if_neg Bool.false_ne_true, if_neg, if_pos hdecimal, Double.ofDecimal_toText]
  · rfl
  · split
    · rename_i ds heq
      exact absurd heq (hnegative ds)
    · exact Bool.false_ne_true

end TextGrammar
