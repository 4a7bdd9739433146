-- The law of article markers. Before a word, a marker gives the article that the modifier gives for
-- the text behind it. Before a mark such as a quote it gives "a", whatever word comes after that.
import Mathlib.Data.List.TakeWhile
import TextGrammar.Expansion.Basic
import TextGrammar.Proofs.Markers
import TextGrammar.Proofs.Spelling

namespace TextGrammar

/-- Behind the white space at its start, the text goes on with a letter or number. -/
def StartsWord (text : List Char) : Prop :=
  ∃ c ∈ (trimStart text).head?, Unicode.isAlphanumeric c = true

instance (text : List Char) : Decidable (StartsWord text) :=
  (trimStart text).head?.decidableExistsMem

/-- The letters and numbers that the text starts with, behind white space. -/
def nextWord (text : List Char) : List Char := (trimStart text).takeWhile Unicode.isAlphanumeric

section

variable {text : List Char}

theorem nextWord_eq_nil (h : ¬StartsWord text) : nextWord text = [] := by
  rw [nextWord]
  cases htext : trimStart text with
  | nil => rfl
  | cons c cs =>
    refine List.takeWhile_cons_of_neg fun hc => h ⟨c, ?_, hc⟩
    rw [htext]
    rfl

theorem exists_of_startsWord (h : StartsWord text) :
    ∃ c rest, trimStart text = c :: rest ∧ Unicode.isAlphanumeric c = true ∧
      nextWord text = c :: rest.takeWhile Unicode.isAlphanumeric := by
  obtain ⟨c, hc, halnum⟩ := h
  obtain ⟨rest, htext⟩ := List.head?_eq_some_iff.mp hc
  exact ⟨c, rest, htext, halnum, by rw [nextWord, htext, List.takeWhile_cons_of_pos halnum]⟩

theorem trimStart_nextWord (h : StartsWord text) : trimStart (nextWord text) = nextWord text := by
  obtain ⟨c, rest, _, halnum, hnext⟩ := exists_of_startsWord h
  rw [hnext, trimStart, List.dropWhile_cons_of_neg]
  simp [not_isWhiteSpace_of_isAlphanumeric halnum]

namespace Article

/-- The first word of a text that starts with a letter or number goes as far as these do. -/
theorem firstWord_of_startsWord (h : StartsWord text) : firstWord text = nextWord text := by
  have hboth : (fun c => decide (Unicode.isAlphanumeric c = true ∧
      (!Unicode.isWhiteSpace c) = true)) = Unicode.isAlphanumeric := by
    funext c
    cases halnum : Unicode.isAlphanumeric c with
    | false => simp
    | true => simp [not_isWhiteSpace_of_isAlphanumeric halnum]
  obtain ⟨c, rest, htext, halnum, _⟩ := exists_of_startsWord h
  have hdrop : ((trimStart text).takeWhile fun c => !Unicode.isWhiteSpace c).dropWhile
      (fun c => !Unicode.isAlphanumeric c) =
        (trimStart text).takeWhile fun c => !Unicode.isWhiteSpace c := by
    rw [htext, List.takeWhile_cons_of_pos (by simp [not_isWhiteSpace_of_isAlphanumeric halnum]),
      List.dropWhile_cons_of_neg (by simp [halnum])]
  rw [firstWord, hdrop, List.takeWhile_takeWhile, hboth, nextWord]

end Article

theorem startsWord_nextWord (h : StartsWord text) : StartsWord (nextWord text) := by
  obtain ⟨c, rest, _, halnum, hnext⟩ := exists_of_startsWord h
  refine ⟨c, ?_, halnum⟩
  rw [trimStart_nextWord h, hnext]
  rfl

/-- The next word is all that the article of a text goes by. -/
theorem article_nextWord (kind : InflectorKind) (h : StartsWord text) :
    kind.inflector.article (nextWord text) = kind.inflector.article text := by
  have hnext := trimStart_nextWord h
  cases kind with
  | full =>
    have hword : Article.firstWord (nextWord text) = Article.firstWord text := by
      rw [Article.firstWord_of_startsWord h,
        Article.firstWord_of_startsWord (startsWord_nextWord h), nextWord, hnext, nextWord,
        List.takeWhile_idem]
    change Article.ofPhrase _ = Article.ofPhrase _
    rw [Article.ofPhrase, Article.ofPhrase, hword]
  | fallback =>
    obtain ⟨c, rest, htext, _, heq⟩ := exists_of_startsWord h
    change Article.ofSpelling _ = Article.ofSpelling _
    rw [Article.ofSpelling, Article.ofSpelling, hnext, htext, heq]
    rfl

/-- A vowel is a letter. -/
theorem isAlphanumeric_of_vowel {c : Char} (h : Article.vowels.contains c.toLower = true) :
    Unicode.isAlphanumeric c = true := by
  by_cases hascii : c.toNat < 0x80
  · have hall : ∀ n < 0x80, Article.vowels.contains (Char.ofNat n).toLower = true →
        Unicode.isAlphanumeric (Char.ofNat n) = true := by decide +kernel
    exact forall_ascii (P := fun c => Article.vowels.contains c.toLower = true →
      Unicode.isAlphanumeric c = true) hall hascii h
  · have hsame : c.toLower = c := toLower_of_not_ascii hascii
    have hvowels : ∀ vowel ∈ Article.vowels, vowel.toNat < 0x80 := by decide
    rw [hsame] at h
    exact absurd (hvowels c (by simpa using h)) hascii

/-- By spelling alone, "an" stands before a letter. -/
theorem article_bySpelling_of_not_startsWord (h : ¬StartsWord text) :
    Inflector.bySpelling.article text = .a := by
  change Article.ofSpelling text = .a
  rw [Article.ofSpelling]
  cases htext : trimStart text with
  | nil => rfl
  | cons c rest =>
    have hvowel : Article.vowels.contains c.toLower = false := Bool.eq_false_iff.mpr fun hc =>
      h ⟨c, by rw [htext]; rfl, isAlphanumeric_of_vowel hc⟩
    rw [List.head?_cons, Option.any_some, hvowel]
    rfl

end

/-! ## The law -/

/-- What a marker gives with a blank and a text behind it in which there is none. -/
theorem resolve_articleMarker (inflector : Inflector) {text : List Char} (h : '(' ∉ text) :
    Inline.resolve inflector ("a(n) ".toList ++ text) =
      (if (nextWord text).isEmpty then Article.a
        else inflector.article (nextWord text)).letters ++ ' ' :: text := by
  have hmark : ByPosition.startsArticle false ('a' :: '(' :: 'n' :: ')' :: ' ' :: text) = true :=
    rfl
  have hrest : '(' ∉ ' ' :: text := by simpa using h
  have harticle : Inline.articleFor inflector 'a' 'n' (' ' :: text) =
      (if (nextWord text).isEmpty then Article.a
        else inflector.article (nextWord text)).letters := by
    have hblank : (' ' :: text).dropWhile Unicode.isWhiteSpace = trimStart text :=
      List.dropWhile_cons_of_pos (by decide)
    have ha : Unicode.isUppercase 'a' = false := by decide
    have hn : Unicode.isUppercase 'n' = false := by decide
    rw [Inline.articleFor, hblank, ha, hn]
    rfl
  have hnone : '(' ∉ Inline.articleFor inflector 'a' 'n' (' ' :: text) ++ ' ' :: text := by
    rw [List.mem_append]
    rintro (hmem | hmem)
    · exact Inline.parenFree_articleFor inflector _ _ _ _ hmem (by decide)
    · exact hrest hmem
  change Inline.resolve inflector ('a' :: '(' :: 'n' :: ')' :: ' ' :: text) = _
  rw [Inline.resolve_eq_both, ByPosition.resolveArticles_marked inflector hmark,
    Inline.resolveArticles_of_unmarked inflector (Inline.hasArticle_of_no_paren hrest),
    Inline.resolvePlurals_of_unmarked inflector (Inline.hasPlural_of_no_paren hnone), harticle]

theorem letters_append_inj {x y : Article} {rest : List Char} :
    x.letters ++ rest = y.letters ++ rest ↔ x = y := by
  rw [List.append_left_inj]
  constructor
  · cases x <;> cases y <;> decide
  · rintro rfl
    rfl

/-- Before a letter or number, a marker gives the article that the modifier gives for the text.
Before anything else it gives "a", which agrees with the modifier when that gives "a" too; by
spelling alone it always does. -/
theorem article_markers_agree_before_words (kind : InflectorKind) {text : List Char}
    (h : '(' ∉ text) :
    let inlined := Inline.resolve kind.inflector ("a(n) ".toList ++ text)
    let modified := kind.inflector.modify text .article
    (StartsWord text → inlined = modified) ∧
    (¬StartsWord text → inlined = Article.a.letters ++ ' ' :: text) ∧
    (inlined = modified ↔ StartsWord text ∨ kind.inflector.article text = .a) ∧
    (kind = .fallback → inlined = modified) := by
  intro inlined modified
  have hinlined : inlined = _ := resolve_articleMarker kind.inflector h
  have hmodified : modified = (kind.inflector.article text).letters ++ ' ' :: text := rfl
  have hword (hstarts : StartsWord text) : inlined = modified := by
    obtain ⟨c, rest, _, _, hnext⟩ := exists_of_startsWord hstarts
    have hempty : (nextWord text).isEmpty = false := by rw [hnext]; rfl
    rw [hinlined, hmodified, hempty, if_neg Bool.false_ne_true, article_nextWord kind hstarts]
  have hmark (hstarts : ¬StartsWord text) : inlined = Article.a.letters ++ ' ' :: text := by
    rw [hinlined, nextWord_eq_nil hstarts]
    rfl
  have hagree (hstarts : ¬StartsWord text) :
      inlined = modified ↔ kind.inflector.article text = .a := by
    rw [hmark hstarts, hmodified, letters_append_inj]
    exact eq_comm
  refine ⟨hword, hmark, ?_, ?_⟩
  · by_cases hstarts : StartsWord text
    · exact ⟨fun _ => .inl hstarts, fun _ => hword hstarts⟩
    · rw [hagree hstarts, or_iff_right hstarts]
  · rintro rfl
    by_cases hstarts : StartsWord text
    · exact hword hstarts
    · exact (hagree hstarts).mpr (article_bySpelling_of_not_startsWord hstarts)

/-- The law before an hour, where both give "an". -/
theorem hour_takes_the_article_of_the_modifier :
    '(' ∉ "hour of need".toList ∧ StartsWord "hour of need".toList ∧
    Inline.resolve InflectorKind.full.inflector ("a(n) ".toList ++ "hour of need".toList) =
      InflectorKind.full.inflector.modify "hour of need".toList .article ∧
    InflectorKind.full.inflector.modify "hour of need".toList .article =
      "an hour of need".toList := by
  have hparen : '(' ∉ "hour of need".toList := by decide
  have hstarts : StartsWord "hour of need".toList := by decide +kernel
  exact ⟨hparen, hstarts, (article_markers_agree_before_words .full hparen).1 hstarts,
    by decide +kernel⟩

/-- Before a quote, a marker does not see the word that the modifier goes by. -/
theorem quote_hides_the_word :
    '(' ∉ "\"apple\"".toList ∧
    Inline.resolve .english ("a(n) ".toList ++ "\"apple\"".toList) = "a \"apple\"".toList ∧
    Inflector.english.modify "\"apple\"".toList .article = "an \"apple\"".toList := by
  decide +kernel

end TextGrammar
