-- The law of unknown modifiers. A word behind a point that names no modifier is reported where it
-- stands. Only quoted text can hide it, for the search for branches knows no quotes; and it does
-- just when its brackets do not match or a bar stands outside them.
import Mathlib.Data.List.TakeWhile
import TextGrammar.Proofs.DeclaredNames
import TextGrammar.Proofs.EnclosedBars
import TextGrammar.Proofs.FaultPlaces
import TextGrammar.Proofs.Parts

namespace TextGrammar

open SourceChar

/-! ## References at any depth -/

/-- A reference at any depth of a pattern that is read has a canonical target, with a level of
brackets to spare. -/
theorem canonical_target_of_mem_parts {pattern : String} {rule : Rule} {target : Target}
    {modifiers : List Modifier} (hread : Rule.ofPattern pattern = .ok rule)
    (hpart : .segment (.reference target modifiers) ∈ (Phrase.body rule.segments).parts) :
    target.Canonical (nestingLimit - 1) := by
  obtain ⟨_, hsegments, _, _⟩ := canonical_of_read (mapError_eq_ok.mp hread)
  obtain ⟨_, hall⟩ := Phrase.canonical_of_le.all (.body _) _ nestingLimit (Nat.le_refl _) hsegments
  cases hall _ hpart with
  | reference htarget => exact htarget

/-! ## Bars in targets -/

/-- In quoted text, brackets match and bars stand in brackets only. What other targets have of them
is escaped or in brackets. -/
def Target.isEnclosed : Target → Bool
  | .quoted text => TextGrammar.isEnclosed 0 text.toList
  | _ => true

/-- In front of text that no scan stops at, the characters of the target are taken for branches if
it is not enclosed. -/
def SplitsAs (target : Target) (cs : List SourceChar) : Prop :=
  ∀ tail, (∀ c ∈ tail, c.IsPlain) → (Unsplit (cs ++ tail) ↔ target.isEnclosed = true)

theorem Barless.splitsAs {target : Target} {cs : List SourceChar} (h : Barless cs)
    (henclosed : target.isEnclosed = true) : SplitsAs target cs := fun _ htail =>
  iff_of_true (h.append (Nested.of_plain htail).barless).unsplit henclosed

theorem Yields.and {written : List Char} {P Q : List SourceChar → Prop} (hp : Yields written P)
    (hq : Yields written Q) : Yields written fun cs => P cs ∧ Q cs := by
  intro column
  obtain ⟨as, has, hp⟩ := hp column
  obtain ⟨bs, hbs, hq⟩ := hq column
  rw [has, Except.ok.injEq] at hbs
  subst hbs
  exact ⟨as, has, hp, hq⟩

theorem yields_barless_word {word : List Char} (h : ∀ c ∈ word, IsNameChar c) :
    Yields word Barless := by
  have hclean : ∀ c ∈ word, IsClean c := fun c hc => (h c hc).clean.1
  refine (yields_unescaped fun c hc => (hclean c hc).noEscape).mono fun cs hcs => ?_
  exact (Nested.of_plain (hcs.isPlain hclean)).barless

/-- A quote of either kind is no bar. -/
theorem barless_quote {c : SourceChar} {quote : Char} (hquote : quote ∉ barMarks)
    (hc : c.is quote = true) : Barless [c] :=
  .cons (fun _ hmark => is_eq_false hc fun heq => hquote (heq ▸ hmark)) .nil

theorem splitsAs_quoted {first last : SourceChar} {text : String} {cs : List SourceChar}
    (hfirst : first.is '\'' = true) (hlast : last.is '\'' = true)
    (hcs : JustEscaped ['\'', '\\'] text.toList cs) :
    SplitsAs (.quoted text) (first :: (cs ++ [last])) := by
  intro tail htail
  have hsub : barMarks ⊆ scanMarks := by decide
  have hrest : ∀ c ∈ last :: tail, ∀ mark ∈ barMarks, c.is mark = false := by
    intro c hc mark hmark
    rcases List.mem_cons.mp hc with rfl | hc
    · exact is_eq_false hlast fun heq => absurd hmark (heq ▸ (by decide : '\'' ∉ barMarks))
    · exact htail c hc mark (hsub hmark)
  rw [Target.isEnclosed, ← hcs.plain, ← unsplit_append_iff hcs.quotedChars hrest, List.cons_append,
    List.append_assoc, List.singleton_append]
  exact (barless_quote (by decide) hfirst).unsplit_append_iff

/-- What the search for bars makes of the text of a target. -/
theorem yields_splitsAs {levels : Nat} {target : Target} (h : target.Canonical levels) :
    Yields target.spell (SplitsAs target) := by
  cases h with
  | symbol hvalid _ =>
    exact (yields_barless_word (isNameChar_of_isSymbolName hvalid)).mono fun _ hcs =>
      hcs.splitsAs rfl
  | dereference hbracketed hinner =>
    refine (blocksReadBack _ _ hinner hbracketed).mono ?_
    rintro _ ⟨opening, interior, closing, rfl, hclosed, _⟩
    exact (Nested.block hclosed .nil).barless.splitsAs rfl
  | @quoted _ text =>
    have htext := yields_justEscaped (by decide : ['\'', '\\'] ⊆ specialChars) (by decide) text
    refine (yields_quoted (by decide) htext).mono ?_
    rintro _ ⟨first, interior, last, rfl, hfirst, hlast, hescaped⟩
    exact splitsAs_quoted hfirst hlast hescaped
  | pattern hapart hcanonical =>
    have hnone : Yields [] (BodyOf (readNested levels) false [] none) := .nil .done
    have hbody := yields_body (blocksReadBack levels) hnone ⟨hapart, hcanonical⟩
      fun h => absurd rfl h
    rw [List.append_nil] at hbody
    refine (yields_quoted (by decide) hbody).mono ?_
    rintro _ ⟨first, interior, last, rfl, hfirst, hlast, hbody⟩
    have hquote {c : SourceChar} := barless_quote (c := c) (by decide : '"' ∉ barMarks)
    exact ((hquote hfirst).append (hbody.nested.barless.append (hquote hlast))).splitsAs rfl
  | range hproper =>
    exact (yields_barless_word fun c hc => isNameChar_of_mem_spell hproper hc).mono fun _ hcs =>
      hcs.splitsAs rfl

/-! ## Reading up to the word -/

section

variable {cs rest : List SourceChar} {modifiers : List Modifier}

/-- The first word of some characters is the same when more follow behind a point. -/
theorem firstWord_append (cs : List SourceChar) (hrest : Dotted rest) :
    (cs ++ rest).takeWhile (fun c => !c.is '.') = cs.takeWhile (fun c => !c.is '.') ∧
      (cs ++ rest).dropWhile (fun c => !c.is '.') = cs.dropWhile (fun c => !c.is '.') ++ rest := by
  have hword : ∀ c ∈ cs.takeWhile (fun c => !c.is '.'), c.is '.' = false := fun c hc => by
    simpa using List.mem_takeWhile_imp hc
  have hdotted : Dotted (cs.dropWhile (fun c => !c.is '.') ++ rest) := by
    intro c hc
    rw [List.head?_append, Option.mem_def, Option.or_eq_some_iff] at hc
    rcases hc with hc | ⟨_, hc⟩
    · have hhead := List.head?_dropWhile_not (fun c => !SourceChar.is c '.') cs
      rw [hc] at hhead
      simpa using hhead
    · exact hrest c hc
  have hsplit : cs ++ rest = cs.takeWhile (fun c => !c.is '.') ++
      (cs.dropWhile (fun c => !c.is '.') ++ rest) := by
    rw [← List.append_assoc, List.takeWhile_append_dropWhile]
  rw [hsplit]
  exact ⟨takeWhile_dotted hword hdotted, dropWhile_dotted hword hdotted⟩

/-- Modifiers are read first, then what follows them. -/
theorem readModifiers_append (h : readModifiers cs = .ok modifiers) (hrest : Dotted rest) :
    readModifiers (cs ++ rest) = (readModifiers rest).map (modifiers ++ ·) := by
  fun_induction readModifiers cs generalizing modifiers with
  | case1 =>
    cases h
    rw [List.nil_append]
    cases readModifiers rest <;> rfl
  | case2 c cs hpoint token modifier hmodifier =>
    rename_i ih
    obtain ⟨tail, htail, rfl⟩ := map_eq_ok.mp h
    obtain ⟨hfirst, hlater⟩ := firstWord_append cs hrest
    rw [List.cons_append, readModifiers, if_pos hpoint, hfirst, hlater, ih htail]
    dsimp only
    rw [hmodifier]
    cases readModifiers rest <;> rfl
  | case3 => cases h
  | case4 => cases h

/-- A word that names no modifier. -/
structure Unknown (token : String) : Prop where
  chars : ∀ c ∈ token.toList, c.isAlphanum = true
  unknown : ∀ m : Modifier, m.token ≠ token

theorem Unknown.isNameChar {token : String} (h : Unknown token) :
    ∀ c ∈ token.toList, IsNameChar c := by
  intro c hc
  have hchar := h.chars c hc
  rw [Char.isAlphanum, Bool.or_eq_true] at hchar
  exact hchar.elim isNameChar_of_isAlpha isNameChar_of_isDigit

/-- The characters of an unknown word behind its point. -/
structure EndsUnknown (token : String) (point : SourceChar) (word : List SourceChar) : Prop where
  isPoint : point.is '.' = true
  word : Unescaped token.toList word

theorem EndsUnknown.readModifiers {token : String} {point : SourceChar} {word : List SourceChar}
    (h : EndsUnknown token point word) (htoken : Unknown token) :
    readModifiers (point :: word) = .error ⟨point.column + 1, .unknownModifier token⟩ := by
  have hpoints : ∀ c ∈ word, (!c.is '.') = true := by
    intro c hc
    simp [SourceChar.is, (htoken.isNameChar _ (h.word.mem hc)).clean.2]
  have htext : SourceChar.text (word.takeWhile fun c => !c.is '.') = token := by
    rw [List.takeWhile_eq_self_iff.mpr hpoints, SourceChar.text, h.word.plain, String.ofList_toList]
  have hunknown : Modifier.ofToken? token = none := by
    simpa [Modifier.ofToken?] using fun m _ => htoken.unknown m
  rw [TextGrammar.readModifiers, if_pos h.isPoint, htext]
  dsimp only
  rw [hunknown]

/-- Modifiers, and an unknown word behind its point. -/
structure ReadsUnknown (token : String) (point : SourceChar) (tail : List SourceChar) : Prop where
  read : TextGrammar.readModifiers tail = .error ⟨point.column + 1, .unknownModifier token⟩
  dotted : Dotted tail
  isPlain : ∀ c ∈ tail, c.IsPlain
  isBlank : ∀ c ∈ tail, c.isBlank = false

theorem ReadsModifiers.unknown {token : String} {point : SourceChar}
    {mods word : List SourceChar} (htoken : Unknown token) (hmods : ReadsModifiers modifiers mods)
    (hends : EndsUnknown token point word) : ReadsUnknown token point (mods ++ point :: word) := by
  have hclean : ∀ c ∈ token.toList, IsClean c := fun c hc => (htoken.isNameChar c hc).clean.1
  have hpoint : Dotted (point :: word) := by simpa [Dotted] using hends.isPoint
  refine ⟨?_, ?_, ?_, ?_⟩
  · rw [readModifiers_append hmods.read hpoint, hends.readModifiers htoken]
    rfl
  · intro c hc
    rw [List.head?_append, Option.mem_def, Option.or_eq_some_iff] at hc
    rcases hc with hc | ⟨_, hc⟩
    · exact hmods.dotted c hc
    · exact hpoint c hc
  · intro c hc
    rcases List.mem_append.mp hc with hc | hc
    · exact hmods.isPlain c hc
    · rcases List.mem_cons.mp hc with rfl | hc
      · exact isPlain_of_is hends.isPoint (by decide)
      · exact hends.word.isPlain hclean c hc
  · intro c hc
    rcases List.mem_append.mp hc with hc | hc
    · exact hmods.isBlank c hc
    · rcases List.mem_cons.mp hc with rfl | hc
      · exact isBlank_of_is hends.isPoint (by decide)
      · exact hends.word.isBlank hclean c hc

end

/-! ## Brackets with an unknown word -/

section

variable {readBlock : BlockReader} {target : Target} {token : String} {first point : SourceChar}
  {cs tail : List SourceChar}

/-- The word is none of a bracket inside, for no bracket closes behind it. -/
theorem ReadsUnknown.not_blames (htail : ReadsUnknown token point tail)
    (hbefore : ∀ c ∈ cs, c.column < point.column) :
    ¬Blames (cs ++ tail) ⟨point.column + 1, .unknownModifier token⟩ := by
  rintro ⟨before, other, after, hsplit, hfault⟩
  generalize hcolumn : point.column + 1 = column at hfault
  cases hfault with
  | unknownModifier _ closes _ =>
    obtain ⟨closing, hafter, hclosing⟩ := closes
    have hnone : closing ∉ tail := fun hmem => by
      rw [htail.isPlain closing hmem ']' (by decide)] at hclosing
      cases hclosing
    rcases List.append_eq_append_iff.mp hsplit with ⟨between, _, rfl⟩ | ⟨between, rfl, hrest⟩
    · exact hnone (by simp [hafter])
    cases between with
    | nil =>
      obtain rfl : other :: after = tail := hrest
      exact hnone (List.mem_cons_of_mem other hafter)
    | cons d between =>
      obtain ⟨rfl, _⟩ := List.cons.inj hrest
      have hlt := hbefore other (by simp)
      omega

/-- The fault is that of the reference when there are no branches that could be read instead, and
only then: a branch fails elsewhere. -/
theorem readBracket_unknown_iff (hread : ReaderBlames readBlock)
    (htarget : ReadsTarget readBlock target first cs) (htail : ReadsUnknown token point tail)
    (hbefore : ∀ c ∈ first :: cs, c.column < point.column) (column : Nat) :
    readBracket readBlock column (first :: (cs ++ tail)) =
      .error ⟨point.column + 1, .unknownModifier token⟩ ↔ Unsplit (first :: (cs ++ tail)) := by
  have hreference : readReference readBlock first (cs ++ tail) =
      .error ⟨point.column + 1, .unknownModifier token⟩ := by
    unfold readReference
    rw [htarget.read tail htail.dotted, ok_bind]
    dsimp only
    rw [htail.read]
    rfl
  unfold readBracket
  rw [htarget.trim htail.isBlank]
  dsimp only
  rw [hreference]
  dsimp only
  -- With quotes or without, it is now left to the bars.
  rw [ite_self]
  cases hparts : splitBars (first :: (cs ++ tail)) with
  | error fault =>
    refine iff_of_false (fun h => ?_) (by simp [Unsplit, hparts])
    rw [Except.error.inj h] at hparts
    exact htail.not_blames hbefore (blames_splitBars hparts)
  | ok parts =>
    rw [ok_bind]
    split
    · rename_i part
      exact iff_of_true rfl ⟨part, hparts⟩
    · rename_i hsingle
      refine iff_of_false (fun h => ?_) (by simpa [Unsplit, hparts] using hsingle)
      exact htail.not_blames hbefore (blames_readChoice hread hparts h)

/-- The bracket is closed where it should be, so the fault is that of the whole. -/
theorem readBody_unknown_iff {levels : Nat} {opening closing : SourceChar}
    (hopening : opening.is '[' = true) (hclosing : closing.is ']' = true)
    (htarget : ReadsTarget (readNested levels) target first cs)
    (htail : ReadsUnknown token point tail)
    (hbefore : ∀ c ∈ first :: cs, c.column < point.column) :
    readBody (readNested (levels + 1)) true [] (opening :: (first :: (cs ++ tail) ++ [closing])) =
      .error ⟨point.column + 1, .unknownModifier token⟩ ↔ Unsplit (first :: (cs ++ tail)) := by
  have hcrosses : Crosses .opened (first :: (cs ++ tail)) :=
    htarget.crosses.append (passes_of_plain htail.isPlain)
  have hclosed : Closed opening (first :: (cs ++ tail)) closing := ⟨hopening, hclosing, hcrosses⟩
  rw [← readBracket_unknown_iff (readerBlames_readNested levels) htarget htail hbefore
    opening.column, readBody, if_pos hopening, hclosed.interiorLength, ok_bind, List.take_left,
    drop_past, readNested]
  cases readBracket (readNested levels) opening.column (first :: (cs ++ tail)) with
  | error fault => simp [bind, Except.bind]
  | ok segment =>
    rw [ok_bind, readBody, ok_bind]
    simp

end

/-! ## The text of a reference, opened again -/

/-- The text of a reference without the bracket that closes it. -/
def Target.opened (target : Target) (modifiers : List Modifier) : List Char :=
  '[' :: target.spell ++ Modifier.spellAll modifiers

section

variable {token : String} {levels : Nat} {target : Target}

theorem yields_opened (htarget : target.Canonical levels) (modifiers : List Modifier) :
    Yields (target.opened modifiers) fun cs =>
      ∃ opening first rest mods, cs = opening :: (first :: rest ++ mods) ∧
        opening.is '[' = true ∧ ReadsTarget (readNested levels) target first rest ∧
        SplitsAs target (first :: rest) ∧ ReadsModifiers modifiers mods := by
  have hopening : Yields ['['] fun cs => ∃ d, cs = [d] ∧ d.is '[' = true := .mark (by decide)
  have hreads := (yields_target (blocksReadBack levels) htarget).and (yields_splitsAs htarget)
  have hspelled : Yields ('[' :: target.spell) fun cs => ∃ opening first rest,
      cs = opening :: first :: rest ∧ opening.is '[' = true ∧
        ReadsTarget (readNested levels) target first rest ∧ SplitsAs target (first :: rest) := by
    refine hopening.append hreads ?_
    rintro _ _ ⟨opening, rfl, hopening⟩ ⟨⟨first, rest, rfl, htarget⟩, hsplits⟩
    exact ⟨opening, first, rest, rfl, hopening, htarget, hsplits⟩
  refine hspelled.append (yields_modifiers modifiers) ?_
  rintro _ mods ⟨opening, first, rest, rfl, hopening, htarget, hsplits⟩ hmods
  exact ⟨opening, first, rest, mods, rfl, hopening, htarget, hsplits, hmods⟩

/-- A point, a word, and the bracket that closes behind it. -/
theorem resolve_closing (htoken : Unknown token) (column : Nat) : ∃ point word closing,
    resolve column ('.' :: (token.toList ++ [']'])) = .ok (point :: (word ++ [closing])) ∧
      EndsUnknown token point word ∧ point.column = column ∧ closing.is ']' = true := by
  have hword := yields_unescaped fun c hc => (htoken.isNameChar c hc).clean.1.noEscape
  have hclosing : Yields [']'] fun cs => ∃ d, cs = [d] ∧ d.is ']' = true := .mark (by decide)
  have htail : Yields (token.toList ++ [']']) fun cs => ∃ word closing,
      cs = word ++ [closing] ∧ Unescaped token.toList word ∧ closing.is ']' = true := by
    refine hword.append hclosing ?_
    rintro word _ hword ⟨closing, rfl, hclosing⟩
    exact ⟨word, closing, rfl, hword, hclosing⟩
  obtain ⟨_, hchars, word, closing, rfl, hword, hclosing⟩ := htail (column + 1)
  refine ⟨⟨'.', false, column⟩, word, closing, ?_, ⟨rfl, hword⟩, rfl, hclosing⟩
  rw [resolve_cons (by decide), hchars]
  rfl

/-- The characters of a text stand in the columns of the text. -/
theorem column_lt_of_resolve {column : Nat} {cs : List Char} {chars : List SourceChar}
    (h : resolve column cs = .ok chars) : ∀ c ∈ chars, c.column < column + cs.length := by
  intro c hc
  obtain ⟨before, after, rfl⟩ := List.append_of_mem hc
  obtain ⟨front, back, rfl, _, hback⟩ := exists_of_resolve_append h
  obtain ⟨hcolumn, _⟩ := exists_of_resolve_cons hback
  have hne : back ≠ [] := by
    rintro rfl
    cases hback
  have hpos := List.length_pos_iff.mpr hne
  rw [hcolumn, List.length_append]
  omega

/-- The word behind the modifiers of a reference is reported in its column when the target is
enclosed, and only then. -/
theorem read_unknown_iff (htarget : target.Canonical (nestingLimit - 1))
    (modifiers : List Modifier) (htoken : Unknown token) (column : Nat) :
    Rule.read column (target.opened modifiers ++ '.' :: (token.toList ++ [']'])) =
      .error ⟨column + (target.opened modifiers).length + 1, .unknownModifier token⟩ ↔
        target.isEnclosed = true := by
  obtain ⟨_, hopened, opening, first, rest, mods, rfl, hopening, hreads, hsplits, hmods⟩ :=
    yields_opened htarget modifiers column
  obtain ⟨point, word, closing, hclosed, hends, hcolumn, hclosing⟩ :=
    resolve_closing htoken (column + (target.opened modifiers).length)
  have htail := hmods.unknown htoken hends
  have hbefore : ∀ c ∈ first :: rest, c.column < point.column := by
    intro c hc
    rw [hcolumn]
    refine column_lt_of_resolve hopened c ?_
    exact List.mem_cons_of_mem opening (List.mem_append_left mods hc)
  have hlevels : nestingLimit - 1 + 1 = nestingLimit := rfl
  have hchars : opening :: (first :: rest ++ mods) ++ point :: (word ++ [closing]) =
      opening :: (first :: (rest ++ (mods ++ point :: word)) ++ [closing]) := by simp
  rw [← hsplits _ htail.isPlain, List.cons_append,
    ← readBody_unknown_iff hopening hclosing hreads htail hbefore, hlevels, ← hcolumn, ← hchars,
    Rule.read, resolve_append hopened, hclosed, Except.map, ok_bind, bind_eq_error]
  exact or_iff_left fun ⟨_, _, hok⟩ => by cases hok

end

/-! ## The law -/

theorem dropLast_spell (target : Target) (modifiers : List Modifier) :
    (Segment.reference target modifiers).spell.dropLast = target.opened modifiers := by
  rw [Segment.spell, List.dropLast_concat, Target.opened]

/-- Whatever reference stands at any depth of a pattern that is read: one more word behind its
modifiers that names none is reported where it starts, unless the target is quoted text in which
the brackets do not match or a bar stands outside them. Then it is not reported. -/
theorem unknown_modifiers_are_reported (pattern : String) (rule : Rule) (target : Target)
    (modifiers : List Modifier) (token : String) (hread : Rule.ofPattern pattern = .ok rule)
    (hpart : .segment (.reference target modifiers) ∈ (Phrase.body rule.segments).parts)
    (hchars : ∀ c ∈ token.toList, c.isAlphanum = true)
    (hunknown : ∀ m : Modifier, m.token ≠ token) :
    let opened := (Segment.reference target modifiers).spell.dropLast
    Rule.ofPattern (String.ofList (opened ++ '.' :: (token.toList ++ [']']))) =
      .error ⟨1, some (opened.length + 2), .unknownModifier token⟩ ↔ target.isEnclosed = true := by
  have htarget := canonical_target_of_mem_parts hread hpart
  rw [← read_unknown_iff htarget modifiers ⟨hchars, hunknown⟩ 1]
  dsimp only
  rw [Rule.ofPattern, String.toList_ofList, dropLast_spell, mapError_eq_error]
  have hcolumn : 1 + (target.opened modifiers).length + 1 =
      (target.opened modifiers).length + 2 := by omega
  rw [hcolumn]
  constructor
  · rintro ⟨⟨column, defect⟩, hfault, hline⟩
    cases hline
    exact hfault
  · exact fun hfault => ⟨_, hfault, rfl⟩

/-- Quoted text with modifiers in a branch of a computed name. -/
def riddle : Rule :=
  ⟨[.literal "who is ",
    .reference (.dereference (.choice [⟨[.literal "x"], defaultWeight⟩,
      ⟨[.reference (.quoted "it's [a|b] #1") [.title, .article]], defaultWeight⟩])) [.upper]],
    defaultWeight⟩

theorem riddle_canonical : riddle.Canonical nestingLimit := by
  have hweight : defaultWeight.IsWeight := ⟨_, rfl⟩
  refine .mk (by simp [Apart, Segment.isLiteral]) ?_ hweight fun h => absurd rfl h
  simp only [List.forall_mem_cons, List.not_mem_nil, false_implies, implies_true, and_true]
  refine ⟨.literal (by decide), .reference (.dereference rfl (.choice (by decide) ?_))⟩
  simp only [List.forall_mem_cons, List.not_mem_nil, false_implies, implies_true, and_true]
  refine ⟨.mk (.singleton _) ?_ hweight fun h => absurd rfl h,
    .mk (.singleton _) ?_ hweight fun h => absurd rfl h⟩
  · exact List.forall_mem_singleton.mpr (.literal (by decide))
  · exact List.forall_mem_singleton.mpr (.reference .quoted)

/-- The law at quoted text with a bar in brackets. -/
theorem word_behind_quoted_text_is_reported : Rule.ofPattern riddle.text = .ok riddle ∧
    (Target.quoted "it's [a|b] #1").isEnclosed = true ∧
    Rule.ofPattern "['it\\'s [a|b] #1'.title.a.zzz]" =
      .error ⟨1, some 27, .unknownModifier "zzz"⟩ := by
  have hread : Rule.ofPattern riddle.text = .ok riddle := by
    rw [Rule.ofPattern, Rule.text, String.toList_ofList, read_spell riddle_canonical]
    rfl
  have hpart : .segment (.reference (.quoted "it's [a|b] #1") [.title, .article]) ∈
      (Phrase.body riddle.segments).parts := by
    simp [riddle, Phrase.parts, Segment.allParts, Segment.parts, Target.parts, Rule.allParts,
      Rule.parts]
  have henclosed : (Target.quoted "it's [a|b] #1").isEnclosed = true := by decide
  have hchars : ("zzz".toList.all Char.isAlphanum) = true := by decide
  have hreported := unknown_modifiers_are_reported riddle.text riddle _ _ "zzz" hread hpart
    (List.all_eq_true.mp hchars) (by intro m; cases m <;> decide)
  exact ⟨hread, henclosed, hreported.mpr henclosed⟩

/-- A bar in quoted text splits it into branches, and the word goes unnoticed in the second. -/
theorem bar_in_quoted_text_hides_a_word :
    Rule.ofPattern ("[" ++ "'a|b'" ++ "]") = .ok (Target.quoted "a|b").lone ∧
    .segment (.reference (.quoted "a|b") []) ∈
      (Phrase.body (Target.quoted "a|b").lone.segments).parts ∧
    (∀ m : Modifier, m.token ≠ "zzz") ∧
    (Rule.ofPattern "['a|b'.zzz]").isOk = true := by
  refine ⟨ofPattern_lone (fun levels => .quoted) (by decide), ?_, ?_, by decide +kernel⟩
  · simp [Target.lone, Phrase.parts, Segment.allParts, Segment.parts]
  · intro m
    cases m <;> decide

end TextGrammar
