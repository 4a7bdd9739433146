-- Markers in a text: where articles and plurals are put. A text without markers is left as it is,
-- and no other text is, since each marker that is resolved takes a parenthesis with it.
import TextGrammar.Proofs.PluralWords

namespace TextGrammar

namespace Inline

open ByPosition (startsArticle startsPlural)

/-! ## Markers -/

/-- A marker for an article stands in the text, which has a letter or number in front of it when
`inWord` says so. -/
def hasArticle (inWord : Bool) : List Char → Bool
  | [] => false
  | c :: cs => startsArticle inWord (c :: cs) || hasArticle (Unicode.isAlphanumeric c) cs

/-- A marker for a plural stands in the text. -/
def hasPlural : List Char → Bool
  | [] => false
  | c :: cs => startsPlural (c :: cs) || hasPlural cs

/-- A marker stands in the text. -/
def hasMarker (text : List Char) : Bool := hasArticle false text || hasPlural text

theorem startsPlural_mark {letter : Char} (h : letter = 's' ∨ letter = 'S') (rest : List Char) :
    startsPlural ('(' :: letter :: ')' :: rest) = true := by
  rcases h with rfl | rfl <;> rfl

/-- A marker for a plural starts with a parenthesis. -/
theorem startsPlural_of_ne {c : Char} (h : c ≠ '(') (cs : List Char) :
    startsPlural (c :: cs) = false := Bool.eq_false_iff.mpr fun hmark => by
  obtain ⟨letter, rest, heq, _⟩ := ByPosition.exists_of_startsPlural hmark
  exact h (List.cons.inj heq).1

theorem ne_of_isMark {letter : Char} (h : letter = 's' ∨ letter = 'S') : letter ≠ '(' := by
  rcases h with rfl | rfl <;> decide

theorem count_mark {letter : Char} (h : letter = 's' ∨ letter = 'S') (rest : List Char) :
    ('(' :: letter :: ')' :: rest).count '(' = rest.count '(' + 1 := by
  rcases h with rfl | rfl <;> simp

theorem hasPlural_append_mark {letter : Char} (h : letter = 's' ∨ letter = 'S')
    (text rest : List Char) : hasPlural (text ++ '(' :: letter :: ')' :: rest) = true := by
  induction text with
  | nil =>
    rw [List.nil_append, hasPlural, startsPlural_mark h]
    rfl
  | cons c text ih => rw [List.cons_append, hasPlural, ih, Bool.or_true]

/-- A text is empty, or it starts with a marker for an article, or with a character that does
not. -/
@[elab_as_elim]
theorem articles_induction {P : Bool → List Char → Prop} (nil : ∀ inWord, P inWord [])
    (marked : ∀ inWord a n rest, startsArticle inWord (a :: '(' :: n :: ')' :: rest) = true →
      P false rest → P inWord (a :: '(' :: n :: ')' :: rest))
    (plain : ∀ inWord c cs, startsArticle inWord (c :: cs) = false →
      P (Unicode.isAlphanumeric c) cs → P inWord (c :: cs)) :
    ∀ inWord text, P inWord text
  | inWord, [] => nil inWord
  | inWord, c :: cs => by
    cases hmark : startsArticle inWord (c :: cs) with
    | false => exact plain inWord c cs hmark (articles_induction nil marked plain _ cs)
    | true =>
      obtain ⟨a, n, rest, heq⟩ := ByPosition.exists_of_startsArticle hmark
      rw [heq] at hmark ⊢
      exact marked inWord a n rest hmark (articles_induction nil marked plain false rest)
termination_by _ text => text.length
decreasing_by
  · exact Nat.lt_succ_self _
  · rw [heq]
    simp only [List.length_cons]
    omega

/-- A text is empty, or it starts with a marker for a plural, or with a character that does not. -/
@[elab_as_elim]
theorem plurals_induction {P : List Char → Prop} (nil : P [])
    (marked : ∀ letter rest, letter = 's' ∨ letter = 'S' → P rest →
      P ('(' :: letter :: ')' :: rest))
    (plain : ∀ c cs, startsPlural (c :: cs) = false → P cs → P (c :: cs)) : ∀ text, P text
  | [] => nil
  | c :: cs => by
    cases hmark : startsPlural (c :: cs) with
    | false => exact plain c cs hmark (plurals_induction nil marked plain cs)
    | true =>
      obtain ⟨letter, rest, heq, hletter⟩ := ByPosition.exists_of_startsPlural hmark
      rw [heq]
      exact marked letter rest hletter (plurals_induction nil marked plain rest)
termination_by text => text.length
decreasing_by
  · exact Nat.lt_succ_self _
  · rw [heq]
    simp only [List.length_cons]
    omega

/-! ## Articles -/

/-- What is written for the marker of an article: "a" or "an", with capitals or without. -/
theorem articleFor_mem (inflector : Inflector) (a n : Char) (rest : List Char) :
    ∃ first ∈ ['a', 'A'], articleFor inflector a n rest = [first] ∨
      ∃ last ∈ ['n', 'N'], articleFor inflector a n rest = [first, last] := by
  have hall : ∀ article ∈ [Article.a, Article.an], ∀ upperA ∈ [true, false],
      ∀ upperN ∈ [true, false],
      let letters := if upperA then capitalize article.letters else article.letters
      let written := if upperN then Unicode.upperText letters else letters
      ∃ first ∈ ['a', 'A'], written = [first] ∨ ∃ last ∈ ['n', 'N'], written = [first, last] := by
    decide +kernel
  have harticle : ∀ article : Article, article ∈ [Article.a, Article.an] := by
    intro article
    cases article <;> decide
  have hupper : ∀ upper : Bool, upper ∈ [true, false] := by decide
  exact hall _ (harticle _) _ (hupper _) _ (hupper _)

theorem parenFree_articleFor (inflector : Inflector) (a n : Char) (rest : List Char) :
    ParenFree (articleFor inflector a n rest) := by
  have hfirst : ∀ first ∈ ['a', 'A'], first ∉ parens := by decide
  have hlast : ∀ last ∈ ['n', 'N'], last ∉ parens := by decide
  obtain ⟨first, hmem, hwritten | ⟨last, hmemLast, hwritten⟩⟩ :=
    articleFor_mem inflector a n rest
  · rw [hwritten]
    simpa [ParenFree] using hfirst first hmem
  · rw [hwritten]
    simpa [ParenFree] using And.intro (hfirst first hmem) (hlast last hmemLast)

section

variable {inWord : Bool} {text : List Char}

theorem resolveArticles_of_unmarked (inflector : Inflector) (h : hasArticle inWord text = false) :
    resolveArticles inflector inWord text = text := by
  induction inWord, text using articles_induction with
  | nil => rw [resolveArticles]
  | marked inWord a n rest hmark ih =>
    rw [hasArticle, hmark] at h
    cases h
  | plain inWord c cs hmark ih =>
    rw [hasArticle, hmark, Bool.false_or] at h
    rw [ByPosition.resolveArticles_unmarked inflector hmark, ih h]

/-- Without a parenthesis there is no marker for an article. -/
theorem hasArticle_of_no_paren (h : '(' ∉ text) : hasArticle inWord text = false := by
  induction text generalizing inWord with
  | nil => rfl
  | cons c cs ih =>
    have hstart : startsArticle inWord (c :: cs) = false := Bool.eq_false_iff.mpr fun hmark => by
      obtain ⟨a, n, rest, heq⟩ := ByPosition.exists_of_startsArticle hmark
      rw [heq] at h
      exact h (by simp)
    rw [hasArticle, hstart, Bool.false_or]
    exact ih fun hmem => h (List.mem_cons_of_mem c hmem)

theorem count_eq_zero_of_parenFree (h : ParenFree text) : text.count '(' = 0 :=
  List.count_eq_zero.mpr fun hmem => h '(' hmem (by decide)

/-- Each marker that is resolved takes its parenthesis with it. -/
theorem count_resolveArticles_lt (inflector : Inflector) (h : hasArticle inWord text = true) :
    (resolveArticles inflector inWord text).count '(' < text.count '(' := by
  induction inWord, text using articles_induction with
  | nil => cases h
  | marked inWord a n rest hmark ih =>
    have hle : (resolveArticles inflector false rest).count '(' ≤ rest.count '(' := by
      cases hrest : hasArticle false rest with
      | true => exact Nat.le_of_lt (ih hrest)
      | false => exact Nat.le_of_eq (by rw [resolveArticles_of_unmarked inflector hrest])
    rw [ByPosition.resolveArticles_marked inflector hmark, List.count_append,
      count_eq_zero_of_parenFree (parenFree_articleFor inflector a n rest)]
    simp only [List.count_cons, beq_self_eq_true, if_true]
    omega
  | plain inWord c cs hmark ih =>
    rw [hasArticle, hmark, Bool.false_or] at h
    rw [ByPosition.resolveArticles_unmarked inflector hmark, List.count_cons, List.count_cons]
    exact Nat.add_lt_add_right (ih h) _

end

/-! ## Plurals -/

/-- Without a parenthesis there is no marker for a plural. -/
theorem hasPlural_of_no_paren {text : List Char} (h : '(' ∉ text) : hasPlural text = false := by
  induction text with
  | nil => rfl
  | cons c cs ih =>
    rw [List.mem_cons, not_or] at h
    rw [hasPlural, startsPlural_of_ne (Ne.symm h.1), ih h.2, Bool.false_or]

/-- What putting plurals may make of a text: a marker gives its letter, or what is written for the
word that it stands behind, and all else stays. -/
inductive Pluralizes (inflector : Inflector) : List Char → List Char → Prop
  | nil : Pluralizes inflector [] []
  | plain {c : Char} {cs out : List Char} (unmarked : startsPlural (c :: cs) = false)
    (rest : Pluralizes inflector cs out) : Pluralizes inflector (c :: cs) (c :: out)
  | letter {letter : Char} {cs out : List Char} (isMark : letter = 's' ∨ letter = 'S')
    (rest : Pluralizes inflector cs out) :
    Pluralizes inflector ('(' :: letter :: ')' :: cs) (letter :: out)
  | word {word put : List Char} {letter : Char} {cs out : List Char} (isWord : IsWord word)
    (isMark : letter = 's' ∨ letter = 'S') (put_eq : put = word ∨ put = inflector.plural word)
    (rest : Pluralizes inflector cs out) :
    Pluralizes inflector (word ++ '(' :: letter :: ')' :: cs) (put ++ out)

/-- No marker for a plural starts in the text, which has `cs` behind it. -/
def Clear (text cs : List Char) : Prop :=
  ∀ ending, ending <:+ text → ending ≠ [] → startsPlural (ending ++ cs) = false

section

variable {inflector : Inflector} {text cs out : List Char}

theorem clear_nil (cs : List Char) : Clear [] cs := fun _ hending hne =>
  absurd (List.suffix_nil.mp hending) hne

theorem Clear.of_append {start : List Char} (h : Clear (start ++ text) cs) :
    Clear start (text ++ cs) := by
  intro ending hending hne
  obtain ⟨before, rfl⟩ := hending
  rw [← List.append_assoc]
  exact h _ ⟨before, (List.append_assoc _ _ _).symm⟩ (by simp [hne])

theorem Clear.concat {c : Char} (h : Clear text (c :: cs)) (hc : startsPlural (c :: cs) = false) :
    Clear (text ++ [c]) cs := by
  intro ending hending hne
  rcases List.suffix_concat_iff.mp hending with rfl | ⟨before, rfl, hbefore⟩
  · exact absurd rfl hne
  · rw [List.append_assoc]
    by_cases hnil : before = []
    · rw [hnil]
      exact hc
    · exact h before hbefore hnil

theorem Pluralizes.append (hclear : Clear text cs) (h : Pluralizes inflector cs out) :
    Pluralizes inflector (text ++ cs) (text ++ out) := by
  induction text with
  | nil => exact h
  | cons c text ih =>
    refine .plain (hclear (c :: text) (List.suffix_refl _) (List.cons_ne_nil _ _)) (ih ?_)
    exact fun ending hending => hclear ending (hending.trans (List.suffix_cons c text))

/-- What is put for a marker stands behind what was written before. -/
theorem exists_pluralizes (inflector : Inflector) (cs : List Char) :
    ∀ out since, Clear since cs → ∃ written,
      resolvePlurals inflector out.reverse since.reverse cs = out ++ written ∧
        Pluralizes inflector (since ++ cs) written := by
  induction cs using plurals_induction with
  | nil =>
    intro out since hclear
    refine ⟨since, ?_, ?_⟩
    · rw [resolvePlurals]
      simp
    · simpa using Pluralizes.append hclear .nil
  | plain c cs hmark ih =>
    intro out since hclear
    obtain ⟨written, hwritten, hplurals⟩ := ih out (since ++ [c]) (hclear.concat hmark)
    refine ⟨written, ?_, by simpa using hplurals⟩
    rw [ByPosition.resolvePlurals_unmarked inflector hmark, ← hwritten, List.reverse_append]
    rfl
  | marked letter rest hletter ih =>
    intro out since hclear
    rw [ByPosition.resolvePlurals_marked inflector hletter]
    have hsince := beforeRun_append_lastRun Unicode.isAlphabetic since
    have hword : ∀ c ∈ lastRun Unicode.isAlphabetic since, Unicode.isAlphabetic c = true :=
      fun c hc => of_mem_lastRun hc
    generalize beforeRun Unicode.isAlphabetic since = before at *
    generalize lastRun Unicode.isAlphabetic since = word at *
    subst hsince
    generalize hput : (if word.isEmpty then [letter]
      else if countsOne (out ++ before).reverse then word else inflector.plural word) = put
    obtain ⟨written, hwritten, hplurals⟩ := ih (out ++ before ++ put) [] (clear_nil rest)
    refine ⟨before ++ (put ++ written), by simpa using hwritten, ?_⟩
    rw [List.append_assoc]
    refine Pluralizes.append hclear.of_append ?_
    -- The letter is left behind no word; a word is written itself or in the plural.
    split_ifs at hput with hempty hone
    · rw [List.isEmpty_iff.mp hempty, ← hput]
      exact .letter hletter hplurals
    · exact .word ⟨by simpa using hempty, hword⟩ hletter (.inl hput.symm) hplurals
    · exact .word ⟨by simpa using hempty, hword⟩ hletter (.inr hput.symm) hplurals

/-- Putting plurals makes of a text what it may. -/
theorem pluralizes_resolvePlurals (inflector : Inflector) (text : List Char) :
    Pluralizes inflector text (resolvePlurals inflector [] [] text) := by
  obtain ⟨written, hwritten, hplurals⟩ := exists_pluralizes inflector text [] [] (clear_nil text)
  rw [List.nil_append] at hwritten hplurals
  exact hwritten ▸ hplurals

theorem Pluralizes.eq_of_unmarked (h : Pluralizes inflector text out)
    (hplural : hasPlural text = false) : out = text := by
  induction h with
  | nil => rfl
  | plain unmarked _ ih =>
    rw [hasPlural, unmarked, Bool.false_or] at hplural
    rw [ih hplural]
  | letter isMark _ ih =>
    rw [hasPlural, startsPlural_mark isMark] at hplural
    cases hplural
  | word _ isMark _ _ ih =>
    rw [hasPlural_append_mark isMark] at hplural
    cases hplural

end

section

variable {kind : InflectorKind} {text word put out : List Char}

/-- What is written for a word has no parenthesis. -/
theorem parenFree_put (hword : IsWord word)
    (hput : put = word ∨ put = kind.inflector.plural word) : ParenFree put := by
  rcases hput with rfl | rfl
  · exact hword.parenFree
  · exact (wordlike_plural kind hword).parenFree

/-- No parenthesis comes in. -/
theorem Pluralizes.count_le (h : Pluralizes kind.inflector text out) :
    out.count '(' ≤ text.count '(' := by
  induction h with
  | nil => exact Nat.le_refl _
  | plain _ _ ih =>
    rw [List.count_cons, List.count_cons]
    exact Nat.add_le_add_right ih _
  | letter isMark _ ih =>
    rw [List.count_cons_of_ne (ne_of_isMark isMark), count_mark isMark]
    exact Nat.le_succ_of_le ih
  | word isWord isMark put_eq _ ih =>
    rw [List.count_append, count_eq_zero_of_parenFree (parenFree_put isWord put_eq),
      List.count_append, count_eq_zero_of_parenFree isWord.parenFree, count_mark isMark]
    omega

/-- Each marker that is resolved takes its parenthesis with it. -/
theorem Pluralizes.count_lt (h : Pluralizes kind.inflector text out)
    (hplural : hasPlural text = true) : out.count '(' < text.count '(' := by
  induction h with
  | nil => cases hplural
  | plain unmarked _ ih =>
    rw [hasPlural, unmarked, Bool.false_or] at hplural
    rw [List.count_cons, List.count_cons]
    exact Nat.add_lt_add_right (ih hplural) _
  | letter isMark rest _ =>
    rw [List.count_cons_of_ne (ne_of_isMark isMark), count_mark isMark]
    exact Nat.lt_succ_of_le rest.count_le
  | word isWord isMark put_eq rest _ =>
    have hrest := rest.count_le
    rw [List.count_append, count_eq_zero_of_parenFree (parenFree_put isWord put_eq),
      List.count_append, count_eq_zero_of_parenFree isWord.parenFree, count_mark isMark]
    omega

end

/-! ## Both -/

section

variable (kind : InflectorKind) (text : List Char)

theorem resolvePlurals_of_unmarked (inflector : Inflector) {text : List Char}
    (h : hasPlural text = false) : resolvePlurals inflector [] [] text = text :=
  (pluralizes_resolvePlurals inflector text).eq_of_unmarked h

/-- Without a parenthesis there is no marker to resolve. -/
theorem resolve_eq_both (inflector : Inflector) : resolve inflector text =
    resolvePlurals inflector [] [] (resolveArticles inflector false text) := by
  rw [resolve]
  split
  · rfl
  · rename_i hparen
    have hnone : '(' ∉ text := by simpa using hparen
    rw [resolveArticles_of_unmarked _ (hasArticle_of_no_paren hnone),
      resolvePlurals_of_unmarked _ (hasPlural_of_no_paren hnone)]

/-- A text without markers is left as it is. -/
theorem resolve_of_unmarked (inflector : Inflector) {text : List Char}
    (h : hasMarker text = false) : resolve inflector text = text := by
  rw [hasMarker, Bool.or_eq_false_iff] at h
  rw [resolve_eq_both, resolveArticles_of_unmarked _ h.1, resolvePlurals_of_unmarked _ h.2]

/-- A text is left as it is when there is no marker in it, and only then. -/
theorem resolve_eq_self_iff : resolve kind.inflector text = text ↔ hasMarker text = false := by
  refine ⟨fun h => ?_, resolve_of_unmarked kind.inflector⟩
  rw [resolve_eq_both] at h
  have hplurals := pluralizes_resolvePlurals kind.inflector
    (resolveArticles kind.inflector false text)
  have harticle : hasArticle false text = false := Bool.eq_false_iff.mpr fun hmarker => by
    have hlt := count_resolveArticles_lt kind.inflector hmarker
    have hle := hplurals.count_le
    rw [h] at hle
    omega
  rw [resolveArticles_of_unmarked _ harticle] at h hplurals
  refine Bool.or_eq_false_iff.mpr ⟨harticle, Bool.eq_false_iff.mpr fun hmarker => ?_⟩
  have hlt := hplurals.count_lt hmarker
  rw [h] at hlt
  exact Nat.lt_irrefl _ hlt

end

end Inline

end TextGrammar
