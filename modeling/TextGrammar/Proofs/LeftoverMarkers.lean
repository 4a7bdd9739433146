-- Markers that are left. Resolving the markers of a text can leave a marker in what it makes of
-- the text, and then it is not the same to do it twice. A marker is left only where two meet.
import TextGrammar.Proofs.Markers

namespace TextGrammar

namespace Inline

open ByPosition (startsArticle startsPlural)

/-! ## Where markers meet -/

/-- The ways two markers meet, in small letters: one stands in the other, or behind it and lacks its
first letter. -/
def knots : List String := ["((s))", "(s(s))", "(n(s))", ")(n)"]

/-- Two markers meet in the text. -/
def Knotted (text : List Char) : Prop := ∃ knot ∈ knots, knot.toList <:+: text.map Char.toLower

instance : DecidablePred Knotted := fun _ => inferInstanceAs (Decidable (∃ knot ∈ knots, _))

section

variable {text cs : List Char}

theorem Knotted.of_suffix (h : Knotted cs) (hsuffix : cs <:+ text) : Knotted text := by
  obtain ⟨knot, hknot, hinfix⟩ := h
  exact ⟨knot, hknot, hinfix.trans (hsuffix.map Char.toLower).isInfix⟩

theorem Knotted.of_start {knot : String} (hknot : knot ∈ knots)
    (h : knot.toList <+: text.map Char.toLower) : Knotted text :=
  ⟨knot, hknot, h.isInfix⟩

/-- The text starts with what follows the first letter of a marker for an article. -/
def startsN : List Char → Bool
  | '(' :: n :: ')' :: _ => n.toLower == 'n'
  | _ => false

theorem exists_of_startsN (h : startsN cs = true) :
    ∃ n rest, cs = '(' :: n :: ')' :: rest ∧ n.toLower = 'n' := by
  unfold startsN at h
  split at h
  · exact ⟨_, _, rfl, by simpa using h⟩
  · cases h

theorem startsN_iff : startsN cs = true ↔ ['(', 'n', ')'] <+: cs.map Char.toLower := by
  constructor
  · intro h
    obtain ⟨n, rest, rfl, hn⟩ := exists_of_startsN h
    exact ⟨rest.map Char.toLower, by simp [hn]⟩
  · rintro ⟨rest, hrest⟩
    obtain ⟨opening, cs, rfl, hopening, hcs⟩ := List.map_eq_cons_iff.mp hrest.symm
    obtain ⟨n, cs, rfl, hn, hcs⟩ := List.map_eq_cons_iff.mp hcs
    obtain ⟨closing, cs, rfl, hclosing, _⟩ := List.map_eq_cons_iff.mp hcs
    rw [eq_of_toLower hopening (by decide), eq_of_toLower hclosing (by decide), startsN, hn]
    rfl

theorem startsArticle_cons (inWord : Bool) (c : Char) (cs : List Char) :
    startsArticle inWord (c :: cs) = (c.toLower == 'a' && startsN cs && !inWord) := by
  unfold ByPosition.startsArticle startsN
  split
  · rename_i heq
    cases heq
    rfl
  · rename_i hne
    split
    · exact absurd rfl (hne _ _ _)
    · simp

theorem startsArticle_of_inWord (text : List Char) : startsArticle true text = false := by
  cases text with
  | nil => rfl
  | cons c cs => rw [startsArticle_cons, Bool.not_true, Bool.and_false]

/-- Where a letter or number stands in front, there are no more markers for articles. -/
theorem hasArticle_of_inWord {inWord : Bool} (h : hasArticle inWord text = true) :
    hasArticle false text = true := by
  cases inWord with
  | false => exact h
  | true =>
    cases text with
    | nil => cases h
    | cons c cs =>
      rw [hasArticle, startsArticle_of_inWord, Bool.false_or] at h
      rw [hasArticle, h, Bool.or_true]

/-- Behind text without parentheses, a marker for an article is one itself, or it starts in that
text. -/
theorem hasArticle_append {inWord : Bool} {start : List Char} (hstart : ParenFree start)
    (h : hasArticle inWord (start ++ cs) = true) :
    hasArticle false cs = true ∨ startsN cs = true := by
  induction start generalizing inWord with
  | nil => exact .inl (hasArticle_of_inWord h)
  | cons c start ih =>
    rw [List.cons_append, hasArticle, Bool.or_eq_true, startsArticle_cons] at h
    rcases h with h | h
    · cases start with
      | nil =>
        simp only [Bool.and_eq_true] at h
        exact .inr h.1.2
      | cons d start =>
        have hd := hstart d (List.mem_cons_of_mem c List.mem_cons_self)
        simp only [Bool.and_eq_true] at h
        obtain ⟨n, rest, heq, _⟩ := exists_of_startsN h.1.2
        rw [(List.cons.inj heq).1] at hd
        exact absurd (by decide) hd
    · exact ih hstart.tail h

end

/-! ## Articles -/

section

variable {inflector : Inflector} {inWord : Bool} {text part : List Char}

/-- What starts with a parenthesis does not start in text without one. -/
theorem infix_of_append {start : List Char} {mark : Char} (hstart : ParenFree start)
    (hmark : mark ∈ parens) (h : mark :: part <:+: start ++ text) : mark :: part <:+: text := by
  induction start with
  | nil => exact h
  | cons c start ih =>
    rcases List.infix_cons_iff.mp h with hprefix | hinfix
    · exact absurd ((List.cons_prefix_cons.mp hprefix).1 ▸ hmark) (hstart c List.mem_cons_self)
    · exact ih hstart.tail hinfix

/-- What stands at the start, has no "a" and is no article stood there before. -/
theorem prefix_of_resolveArticles (hpart : 'a' ∉ part)
    (h : part <+: (resolveArticles inflector inWord text).map Char.toLower) :
    part <+: text.map Char.toLower := by
  induction inWord, text using articles_induction generalizing part with
  | nil =>
    rw [resolveArticles] at h
    exact h
  | marked inWord a n rest hmark ih =>
    rw [ByPosition.resolveArticles_marked inflector hmark] at h
    have hfirst : ∀ first ∈ ['a', 'A'], first.toLower = 'a' := by decide
    have hprefix : ∃ rest, part <+: 'a' :: rest := by
      obtain ⟨first, hmem, hwritten | ⟨last, _, hwritten⟩⟩ := articleFor_mem inflector a n rest
      · exact ⟨_, by simpa [hwritten, hfirst first hmem] using h⟩
      · exact ⟨_, by simpa [hwritten, hfirst first hmem] using h⟩
    obtain ⟨_, hprefix⟩ := hprefix
    rcases List.prefix_cons_iff.mp hprefix with rfl | ⟨_, rfl, _⟩
    · exact List.nil_prefix
    · exact absurd List.mem_cons_self hpart
  | plain inWord c cs hmark ih =>
    rw [ByPosition.resolveArticles_unmarked inflector hmark, List.map_cons,
      List.prefix_cons_iff] at h
    rcases h with rfl | ⟨rest, rfl, hrest⟩
    · exact List.nil_prefix
    · rw [List.map_cons, List.cons_prefix_cons]
      exact ⟨rfl, ih (fun hmem => hpart (List.mem_cons_of_mem _ hmem)) hrest⟩

/-- What starts with a parenthesis and has no "a" stood there before the articles. -/
theorem infix_of_resolveArticles {mark : Char} (hmark : mark ∈ parens) (hpart : 'a' ∉ mark :: part)
    (h : mark :: part <:+: (resolveArticles inflector inWord text).map Char.toLower) :
    mark :: part <:+: text.map Char.toLower := by
  induction inWord, text using articles_induction with
  | nil =>
    rw [resolveArticles] at h
    exact h
  | marked inWord a n rest hstart ih =>
    rw [ByPosition.resolveArticles_marked inflector hstart, List.map_append] at h
    have harticle := (parenFree_articleFor inflector a n rest).map_toLower
    exact (ih (infix_of_append harticle hmark h)).trans
      (List.suffix_append (a :: '(' :: n :: [')']) rest |>.map Char.toLower).isInfix
  | plain inWord c cs hstart ih =>
    rw [ByPosition.resolveArticles_unmarked inflector hstart, List.map_cons] at h
    rcases List.infix_cons_iff.mp h with hprefix | hinfix
    · rw [← List.map_cons, ← ByPosition.resolveArticles_unmarked inflector hstart] at hprefix
      exact (prefix_of_resolveArticles hpart hprefix).isInfix
    · exact (ih hinfix).trans ((List.suffix_cons c cs).map Char.toLower).isInfix

/-- Where two markers meet after the articles, they did so before. -/
theorem Knotted.of_resolveArticles (h : Knotted (resolveArticles inflector inWord text)) :
    Knotted text := by
  have hall : ∀ knot ∈ knots, (∃ mark ∈ parens, knot.toList.head? = some mark) ∧
      'a' ∉ knot.toList := by decide
  obtain ⟨knot, hknot, hinfix⟩ := h
  obtain ⟨⟨mark, hmark, hhead⟩, hpart⟩ := hall knot hknot
  obtain ⟨part, heq⟩ := List.head?_eq_some_iff.mp hhead
  rw [heq] at hinfix hpart
  exact ⟨knot, hknot, heq ▸ infix_of_resolveArticles hmark hpart hinfix⟩

theorem startsN_of_resolveArticles (h : startsN (resolveArticles inflector inWord text) = true) :
    startsN text = true :=
  startsN_iff.mpr (prefix_of_resolveArticles (by decide) (startsN_iff.mp h))

/-- A marker for an article is left only behind another. -/
theorem knotted_of_hasArticle
    (h : hasArticle inWord (resolveArticles inflector inWord text) = true) : Knotted text := by
  induction inWord, text using articles_induction with
  | nil =>
    rw [resolveArticles] at h
    cases h
  | marked inWord a n rest hmark ih =>
    rw [ByPosition.resolveArticles_marked inflector hmark] at h
    rcases hasArticle_append (parenFree_articleFor inflector a n rest) h with h | h
    · exact (ih h).of_suffix (List.suffix_append [a, '(', n, ')'] rest)
    · -- The marker is the end of the article and what follows it.
      have hrest := startsN_iff.mp (startsN_of_resolveArticles h)
      have hknot : ")(n)".toList <+: (')' :: rest).map Char.toLower :=
        List.cons_prefix_cons.mpr ⟨rfl, hrest⟩
      exact (Knotted.of_start (by decide) hknot).of_suffix (List.suffix_append [a, '(', n] _)
  | plain inWord c cs hmark ih =>
    rw [ByPosition.resolveArticles_unmarked inflector hmark, hasArticle, Bool.or_eq_true] at h
    rcases h with h | h
    · rw [startsArticle_cons] at h hmark
      simp only [Bool.and_eq_true] at h
      rw [h.1.1, startsN_of_resolveArticles h.1.2, h.2] at hmark
      cases hmark
    · exact (ih h).of_suffix (List.suffix_cons c cs)

end

/-! ## Plurals -/

section

variable {kind : InflectorKind} {text word put out : List Char}

theorem toLower_of_isMark {letter : Char} (h : letter = 's' ∨ letter = 'S') :
    letter.toLower = 's' := by
  rcases h with rfl | rfl <;> rfl

theorem parenFree_of_isMark {letter : Char} (h : letter = 's' ∨ letter = 'S') :
    ParenFree [letter] := by
  have hparens : letter ∉ parens := by rcases h with rfl | rfl <;> decide
  exact fun c hc => List.mem_singleton.mp hc ▸ hparens

/-- What is written for a word is a character only when the word is. -/
theorem exists_of_put (hword : IsWord word) (hput : put = word ∨ put = kind.inflector.plural word) :
    ∃ first rest, put = first :: rest ∧ ParenFree (first :: rest) ∧
      (rest = [] → word = [first]) := by
  have hparens := parenFree_put hword hput
  cases put with
  | nil =>
    rcases hput with rfl | hput
    · exact absurd rfl hword.nonempty
    · have htwo := (wordlike_plural kind hword).two_le
      rw [← hput] at htwo
      cases htwo
  | cons first rest =>
    refine ⟨first, rest, rfl, hparens, ?_⟩
    rintro rfl
    rcases hput with rfl | hput
    · rfl
    · have htwo := (wordlike_plural kind hword).two_le
      rw [← hput] at htwo
      exact absurd htwo (by simp)

/-- A parenthesis stood there before the plurals. -/
theorem Pluralizes.exists_of_parens {mark : Char} (hmark : mark ∈ parens)
    (h : Pluralizes kind.inflector text (mark :: out)) :
    ∃ cs, text = mark :: cs ∧ Pluralizes kind.inflector cs out := by
  generalize hwritten : mark :: out = written at h
  cases h with
  | nil => cases hwritten
  | plain _ rest =>
    cases hwritten
    exact ⟨_, rfl, rest⟩
  | letter isMark _ =>
    cases hwritten
    rcases isMark with rfl | rfl <;> exact absurd hmark (by decide)
  | word isWord _ put_eq _ =>
    obtain ⟨first, rest, rfl, hparens, _⟩ := exists_of_put isWord put_eq
    cases hwritten
    exact absurd hmark (hparens _ List.mem_cons_self)

/-- A letter between parentheses stood between them before the plurals, or else a marker did. -/
theorem Pluralizes.exists_of_bracketed {letter : Char}
    (hletter : letter.toLower = 's' ∨ letter.toLower = 'n')
    (h : Pluralizes kind.inflector text ('(' :: letter :: ')' :: out)) :
    (∃ rest, text = '(' :: letter :: ')' :: rest) ∨ Knotted text := by
  obtain ⟨inner, rfl, hinner⟩ := h.exists_of_parens (by decide)
  generalize hwritten : letter :: ')' :: out = written at hinner
  cases hinner with
  | nil => cases hwritten
  | plain _ rest =>
    cases hwritten
    obtain ⟨cs, rfl, _⟩ := rest.exists_of_parens (by decide)
    exact .inl ⟨cs, rfl⟩
  | letter isMark rest =>
    cases hwritten
    obtain ⟨cs, rfl, _⟩ := rest.exists_of_parens (by decide)
    have hknot : "((s))".toList <+: ('(' :: '(' :: letter :: ')' :: ')' :: cs).map Char.toLower :=
      ⟨cs.map Char.toLower, by simp [toLower_of_isMark isMark]⟩
    exact .inr (.of_start (by decide) hknot)
  | @word word put mark cs out isWord isMark put_eq rest =>
    obtain ⟨first, ending, rfl, hparens, hsingle⟩ := exists_of_put isWord put_eq
    cases ending with
    | cons last ending =>
      cases hwritten
      exact absurd (by decide) (hparens ')' (by simp))
    | nil =>
      cases hwritten
      obtain ⟨cs, rfl, _⟩ := rest.exists_of_parens (by decide)
      have hlower : ('(' :: letter :: '(' :: mark :: ')' :: ')' :: cs).map Char.toLower =
          '(' :: letter.toLower :: '(' :: 's' :: ')' :: ')' :: cs.map Char.toLower := by
        simp [toLower_of_isMark isMark]
      rw [hsingle rfl]
      right
      rcases hletter with hletter | hletter <;> rw [hletter] at hlower
      · exact Knotted.of_start (show "(s(s))" ∈ knots by decide) ⟨_, hlower.symm⟩
      · exact Knotted.of_start (show "(n(s))" ∈ knots by decide) ⟨_, hlower.symm⟩

theorem hasPlural_append (hput : ParenFree put) : hasPlural (put ++ out) = hasPlural out := by
  induction put with
  | nil => rfl
  | cons c put ih =>
    have hc : c ≠ '(' := by
      rintro rfl
      exact hput '(' List.mem_cons_self (by decide)
    rw [List.cons_append, hasPlural, startsPlural_of_ne hc, Bool.false_or, ih hput.tail]

/-- A marker for a plural is left only around another. -/
theorem Pluralizes.knotted_of_hasPlural (h : Pluralizes kind.inflector text out)
    (hplural : hasPlural out = true) : Knotted text := by
  induction h with
  | nil => cases hplural
  | @plain c cs out unmarked rest ih =>
    rw [hasPlural, Bool.or_eq_true] at hplural
    rcases hplural with hstart | hplural
    · obtain ⟨letter, out, heq, isMark⟩ := ByPosition.exists_of_startsPlural hstart
      have hwhole : Pluralizes kind.inflector (c :: cs) (c :: _) := .plain unmarked rest
      rw [heq] at hwhole
      refine (hwhole.exists_of_bracketed (.inl (toLower_of_isMark isMark))).resolve_left ?_
      rintro ⟨cs, hcs⟩
      rw [hcs, startsPlural_mark isMark] at unmarked
      cases unmarked
    · exact (ih hplural).of_suffix (List.suffix_cons c cs)
  | @letter letter cs out isMark rest ih =>
    rw [← List.singleton_append, hasPlural_append (parenFree_of_isMark isMark)] at hplural
    exact (ih hplural).of_suffix (List.suffix_append ['(', letter, ')'] cs)
  | @word word put letter cs out isWord isMark put_eq rest ih =>
    rw [hasPlural_append (parenFree_put isWord put_eq)] at hplural
    have hsuffix := List.suffix_append (word ++ ['(', letter, ')']) cs
    rw [List.append_assoc] at hsuffix
    exact (ih hplural).of_suffix hsuffix

/-- A marker ends a word. -/
theorem hasArticle_behind_mark {inWord : Bool} {cs : List Char} (h : hasArticle false cs = true)
    (start : List Char) (letter : Char) :
    hasArticle inWord (start ++ '(' :: letter :: ')' :: cs) = true := by
  have hmark : Unicode.isAlphanumeric ')' = false := by decide
  induction start generalizing inWord with
  | nil => simp [hasArticle, hmark, h]
  | cons c start ih => rw [List.cons_append, hasArticle, ih, Bool.or_true]

/-- Behind a marker for a plural, a marker for an article was there before the plurals, unless two
markers meet. -/
theorem Pluralizes.behind_mark {inWord : Bool} {cs : List Char} (hput : ParenFree put)
    (hrest : Pluralizes kind.inflector cs out)
    (hcs : hasArticle false out = true → hasArticle false cs = true ∨ Knotted cs)
    (harticle : hasArticle inWord (put ++ out) = true) (start : List Char) (letter : Char) :
    hasArticle inWord (start ++ '(' :: letter :: ')' :: cs) = true ∨
      Knotted (start ++ '(' :: letter :: ')' :: cs) := by
  have hsuffix : ')' :: cs <:+ start ++ '(' :: letter :: ')' :: cs :=
    ⟨start ++ ['(', letter], by simp⟩
  have hknotted (h : Knotted cs) : Knotted (start ++ '(' :: letter :: ')' :: cs) :=
    (h.of_suffix (List.suffix_cons ')' cs)).of_suffix hsuffix
  rcases hasArticle_append hput harticle with harticle | hstart
  · exact (hcs harticle).imp (hasArticle_behind_mark · start letter) hknotted
  · -- The marker begins with the end of what is written for the marker in front.
    obtain ⟨n, out, rfl, hn⟩ := exists_of_startsN hstart
    rcases hrest.exists_of_bracketed (.inr hn) with ⟨rest, rfl⟩ | h
    · have hknot : ")(n)".toList <+: (')' :: '(' :: n :: ')' :: rest).map Char.toLower :=
        ⟨rest.map Char.toLower, by simp [hn]⟩
      exact .inr ((Knotted.of_start (by decide) hknot).of_suffix hsuffix)
    · exact .inr (hknotted h)

/-- A marker for an article that is there after the plurals was there before, unless two markers
meet. -/
theorem Pluralizes.hasArticle_or_knotted {inWord : Bool} (h : Pluralizes kind.inflector text out)
    (harticle : hasArticle inWord out = true) : hasArticle inWord text = true ∨ Knotted text := by
  induction h generalizing inWord with
  | nil => cases harticle
  | @plain c cs out unmarked rest ih =>
    rw [hasArticle, Bool.or_eq_true] at harticle ⊢
    rcases harticle with hstart | harticle
    · rw [startsArticle_cons] at hstart ⊢
      simp only [Bool.and_eq_true] at hstart
      obtain ⟨n, out, rfl, hn⟩ := exists_of_startsN hstart.1.2
      rcases rest.exists_of_bracketed (.inr hn) with ⟨cs, rfl⟩ | hknotted
      · have hcs : startsN ('(' :: n :: ')' :: cs) = true := by simpa [startsN] using hn
        exact .inl (.inl (by rw [hstart.1.1, hcs, hstart.2]; rfl))
      · exact .inr (hknotted.of_suffix (List.suffix_cons c cs))
    · exact (ih harticle).imp .inr fun hknotted => hknotted.of_suffix (List.suffix_cons c cs)
  | letter isMark rest ih =>
    exact rest.behind_mark (parenFree_of_isMark isMark) ih harticle [] _
  | word isWord isMark put_eq rest ih =>
    exact rest.behind_mark (parenFree_put isWord put_eq) ih harticle _ _

/-- A marker is left only where two meet. -/
theorem knotted_of_hasMarker (h : hasMarker (resolve kind.inflector text) = true) :
    Knotted text := by
  rw [resolve_eq_both, hasMarker, Bool.or_eq_true] at h
  have hplurals := pluralizes_resolvePlurals kind.inflector
    (resolveArticles kind.inflector false text)
  rcases h with harticle | hplural
  · rcases hplurals.hasArticle_or_knotted harticle with harticle | hknotted
    · exact knotted_of_hasArticle harticle
    · exact hknotted.of_resolveArticles
  · exact (hplurals.knotted_of_hasPlural hplural).of_resolveArticles

end

end Inline

end TextGrammar
