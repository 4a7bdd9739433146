-- The law of the spelling of plurals. But for capitals, the plural of a word is that of the word in
-- lower case. As far as this goes on like the word, so do its capitals, when they are all of its
-- letters or only the first; a capital behind small letters is lost.
import TextGrammar.Inflection.Inflector
import TextGrammar.Proofs.PluralWords
import TextGrammar.Proofs.Spelling

namespace TextGrammar

open Unicode

/-! ## Letters of ASCII -/

section

variable {c : Char}

theorem ascii_of_isAlpha (h : c.isAlpha = true) : c.toNat < 0x80 := by
  have hhigh := (toNat_of_isAlpha h).2
  omega

theorem isAlphabetic_of_isAlpha (h : c.isAlpha = true) : isAlphabetic c = true := by
  rw [isAlphabetic, if_pos (ascii_of_isAlpha h), h]

theorem isUppercase_of_ascii (h : c.toNat < 0x80) : isUppercase c = c.isUpper := if_pos h

theorem upperChar_of_ascii (h : c.toNat < 0x80) : upperChar c = [c.toUpper] := if_pos h

theorem lowerAfter_of_ascii {word : List Char} (h : ∀ c ∈ word, c.toNat < 0x80)
    (before : List Char) : lowerAfter before word = word.map Char.toLower := by
  induction word generalizing before with
  | nil => rfl
  | cons c cs ih =>
    have hc := h c List.mem_cons_self
    have hsigma : c ≠ capitalSigma := by
      rintro rfl
      exact absurd hc (by decide)
    rw [lowerAfter, if_neg hsigma, lowerChar, if_pos hc,
      ih fun d hd => h d (List.mem_cons_of_mem c hd)]
    rfl

theorem upperText_of_ascii {word : List Char} (h : ∀ c ∈ word, c.toNat < 0x80) :
    upperText word = word.map Char.toUpper := by
  induction word with
  | nil => rfl
  | cons c cs ih =>
    rw [upperText] at ih ⊢
    rw [List.flatMap_cons, upperChar_of_ascii (h c List.mem_cons_self),
      ih fun d hd => h d (List.mem_cons_of_mem c hd)]
    rfl

/-- What is checked of each letter of ASCII holds of all of them. -/
theorem forall_isAlpha {P : Char → Prop} (hall : ∀ n < 0x80, (Char.ofNat n).isAlpha = true →
    P (Char.ofNat n)) (h : c.isAlpha = true) : P c :=
  forall_ascii (P := fun c => c.isAlpha = true → P c) hall (ascii_of_isAlpha h) h

theorem toUpper_toLower_iff (h : c.isAlpha = true) : c.toLower.toUpper = c ↔ c.isUpper = true :=
  forall_isAlpha (P := fun c => c.toLower.toUpper = c ↔ c.isUpper = true) (by decide) h

theorem toLower_eq_self_iff (h : c.isAlpha = true) : c.toLower = c ↔ c.isUpper = false :=
  forall_isAlpha (P := fun c => c.toLower = c ↔ c.isUpper = false) (by decide) h

theorem isLower_toLower (h : c.isAlpha = true) : c.toLower.isLower = true :=
  forall_isAlpha (P := fun c => c.toLower.isLower = true) (by decide) h

theorem isAlpha_of_isLower (h : c.isLower = true) : c.isAlpha = true :=
  Bool.or_eq_true_iff.mpr (.inr h)

/-- A small letter is the small letter of itself and of its capital. -/
theorem toLower_of_isLower (h : c.isLower = true) : c.toLower = c ∧ c.toUpper.toLower = c :=
  forall_isAlpha (P := fun c => c.isLower = true → c.toLower = c ∧ c.toUpper.toLower = c)
    (by decide) (isAlpha_of_isLower h) h

end

/-! ## Capitals -/

section

variable {word plural : List Char}

theorem map_eq_self {change : Char → Char} (h : ∀ c ∈ word, change c = c) :
    word.map change = word :=
  (List.map_congr_left h).trans (List.map_id word)

theorem map_toLower_eq_self_iff (h : ∀ c ∈ word, c.isAlpha = true) :
    word.map Char.toLower = word ↔ ∀ c ∈ word, c.isUpper = false := by
  have hsame := List.map_inj_left (l := word) (f := Char.toLower) (g := id)
  rw [List.map_id] at hsame
  rw [hsame]
  exact forall₂_congr fun c hc => toLower_eq_self_iff (h c hc)

/-- A word in capitals, of two letters at least, has a plural in capitals. -/
theorem matchCapitals_capitals (hword : ∀ c ∈ word, c.isAlpha = true)
    (hplural : ∀ c ∈ plural, c.isLower = true) (htwo : 1 < word.length)
    (hcapitals : ∀ c ∈ word, c.isUpper = true) :
    matchCapitals word plural = plural.map Char.toUpper := by
  have hletters : word.filter isAlphabetic = word :=
    List.filter_eq_self.mpr fun c hc => isAlphabetic_of_isAlpha (hword c hc)
  have hupper : word.all isUppercase = true := List.all_eq_true.mpr fun c hc => by
    rw [isUppercase_of_ascii (ascii_of_isAlpha (hword c hc)), hcapitals c hc]
  unfold matchCapitals
  simp only [hletters, hupper, htwo, decide_true, Bool.and_self, if_true]
  exact upperText_of_ascii fun c hc => ascii_of_isAlpha (isAlpha_of_isLower (hplural c hc))

/-- Any other word passes on the case of its first letter. -/
theorem matchCapitals_first {first letter : Char} {rest letters : List Char}
    (hword : ∀ c ∈ first :: rest, c.isAlpha = true) (hletter : letter.isLower = true)
    (hcapitals : ¬(1 < (first :: rest).length ∧ ∀ c ∈ first :: rest, c.isUpper = true)) :
    matchCapitals (first :: rest) (letter :: letters) =
      (if first.isUpper then letter.toUpper else letter) :: letters := by
  have hcase : ∀ c ∈ first :: rest, isUppercase c = c.isUpper := fun c hc =>
    isUppercase_of_ascii (ascii_of_isAlpha (hword c hc))
  have hfilter : (first :: rest).filter isAlphabetic = first :: rest :=
    List.filter_eq_self.mpr fun c hc => isAlphabetic_of_isAlpha (hword c hc)
  have hmixed : (decide ((first :: rest).length > 1) &&
      (first :: rest).all isUppercase) = false := by
    rw [← Bool.not_eq_true, Bool.and_eq_true, decide_eq_true_eq, List.all_eq_true]
    exact fun ⟨htwo, hall⟩ => hcapitals ⟨htwo, fun c hc => (hcase c hc).symm.trans (hall c hc)⟩
  unfold matchCapitals
  simp only [hfilter, hmixed, Bool.false_eq_true, if_false, List.head?_cons, Option.any_some,
    hcase first List.mem_cons_self, capitalize,
    upperChar_of_ascii (ascii_of_isAlpha (isAlpha_of_isLower hletter))]
  split <;> rfl

/-- But for capitals, the plural is as it was given. -/
theorem map_toLower_matchCapitals (hword : ∀ c ∈ word, c.isAlpha = true) (hne : word ≠ [])
    (hplural : ∀ c ∈ plural, c.isLower = true) :
    (matchCapitals word plural).map Char.toLower = plural := by
  by_cases hcapitals : 1 < word.length ∧ ∀ c ∈ word, c.isUpper = true
  · rw [matchCapitals_capitals hword hplural hcapitals.1 hcapitals.2, List.map_map]
    exact map_eq_self fun c hc => (toLower_of_isLower (hplural c hc)).2
  obtain ⟨first, rest, rfl⟩ := List.exists_cons_of_ne_nil hne
  cases plural with
  | nil =>
    unfold matchCapitals
    dsimp only [capitalize]
    repeat' split
    all_goals rfl
  | cons letter letters =>
    obtain ⟨hlower, hupper⟩ := toLower_of_isLower (hplural letter List.mem_cons_self)
    have hfirst : (if first.isUpper then letter.toUpper else letter).toLower = letter := by
      split
      · exact hupper
      · exact hlower
    rw [matchCapitals_first hword (hplural letter List.mem_cons_self) hcapitals, List.map_cons,
      hfirst, map_eq_self fun c hc =>
        (toLower_of_isLower (hplural c (List.mem_cons_of_mem letter hc))).1]

/-- As far as the plural goes on like the word in small letters, it has the capitals of the word,
unless one stands behind the first letter and not all letters are capitals. -/
theorem take_matchCapitals {shared : List Char} (hword : ∀ c ∈ word, c.isAlpha = true)
    (hne : word ≠ [])
    (hplural : ∀ c ∈ plural, c.isLower = true) (hstart : shared <+: word.map Char.toLower)
    (hgoes : shared <+: plural) :
    (matchCapitals word plural).take shared.length = word.take shared.length ↔
      (∀ c ∈ word, c.isUpper = true) ∨
        ∀ c ∈ (word.take shared.length).tail, c.isUpper = false := by
  rw [List.prefix_iff_eq_take, ← List.map_take] at hstart
  rw [List.prefix_iff_eq_take] at hgoes
  have hsame : plural.take shared.length = (word.take shared.length).map Char.toLower :=
    hgoes.symm.trans hstart
  generalize shared.length = count at *
  by_cases hcapitals : 1 < word.length ∧ ∀ c ∈ word, c.isUpper = true
  · have hback : (word.take count).map (Char.toUpper ∘ Char.toLower) = word.take count :=
      map_eq_self fun c hc => (toUpper_toLower_iff (hword c (List.mem_of_mem_take hc))).mpr
        (hcapitals.2 c (List.mem_of_mem_take hc))
    rw [matchCapitals_capitals hword hplural hcapitals.1 hcapitals.2, ← List.map_take, hsame,
      List.map_map, hback]
    exact iff_of_true rfl (.inl hcapitals.2)
  cases count with
  | zero => simp
  | succ count =>
    obtain ⟨first, rest, rfl⟩ := List.exists_cons_of_ne_nil hne
    cases plural with
    | nil => cases hsame
    | cons letter letters =>
      rw [List.take_succ_cons, List.take_succ_cons, List.map_cons, List.cons.injEq] at hsame
      obtain ⟨rfl, hrest⟩ := hsame
      have hfirst : (if first.isUpper then first.toLower.toUpper else first.toLower) = first := by
        have hletter := hword first List.mem_cons_self
        split
        · exact (toUpper_toLower_iff hletter).mpr ‹_›
        · exact (toLower_eq_self_iff hletter).mpr (Bool.not_eq_true _ ▸ ‹_›)
      have htaken : ∀ c ∈ rest.take count, c.isAlpha = true := fun c hc =>
        hword c (List.mem_cons_of_mem first (List.mem_of_mem_take hc))
      rw [matchCapitals_first hword (hplural _ List.mem_cons_self) hcapitals, hfirst,
        List.take_succ_cons, List.take_succ_cons, List.tail_cons, List.cons.injEq, hrest,
        map_toLower_eq_self_iff htaken]
      refine ⟨fun h => .inr h.2, fun h => ⟨rfl, ?_⟩⟩
      obtain hall | hsmall := h
      · -- All letters are capitals, and so there is the first letter only.
        have hone : rest = [] := by
          by_contra hmore
          have hpos := List.length_pos_iff.mpr hmore
          exact hcapitals ⟨Nat.succ_lt_succ hpos, hall⟩
        intro c hc
        rw [hone, List.take_nil] at hc
        cases hc
      · exact hsmall

end

/-! ## Plurals in small letters -/

/-- All letters are small letters of ASCII. -/
def InSmall (text : List Char) : Prop := ∀ c ∈ text, c.isLower = true

instance (text : List Char) : Decidable (InSmall text) := List.decidableBAll _ _

theorem InSmall.append {a b : List Char} (ha : InSmall a) (hb : InSmall b) : InSmall (a ++ b) :=
  fun c hc => (List.mem_append.mp hc).elim (ha c) (hb c)

theorem kept_inSmall {word : List Char} (h : InSmall word) : Plural.Kept InSmall word where
  uninflected text htext := by
    have hall : ∀ text ∈ Plural.uninflected, InSmall text.toList := by decide +kernel
    exact hall text htext
  irregular entry hentry := by
    have hall : ∀ entry ∈ Plural.irregular, InSmall entry.2.toList := by decide +kernel
    exact hall entry hentry
  ofMan stem hstem := by
    have hstart : InSmall stem := fun c hc => h c (hstem.subset hc)
    exact ⟨hstart.append (by decide), hstart.append (by decide)⟩
  ofY stem hstem := InSmall.append (fun c hc => h c (hstem.subset hc)) (by decide)
  ofEnding := ⟨h.append (by decide), h.append (by decide)⟩

/-- The plural of a phrase is that of its last word, if there is one, behind what stands before. -/
theorem Plural.ofPhrase_eq_append (phrase : List Char) :
    ofPhrase phrase = beforeLastWord phrase ++ ofPhrase (lastWord phrase) := by
  have hphrase : beforeLastWord phrase ++ lastWord phrase = phrase :=
    beforeRun_append_lastRun isAlphabetic phrase
  by_cases hlast : lastWord phrase = []
  · have hempty : ofPhrase [] = [] := by decide
    rw [hlast, List.append_nil] at hphrase
    rw [hlast, hempty, List.append_nil, hphrase, ofPhrase, hlast]
    rfl
  · have hword : IsWord (lastWord phrase) := ⟨hlast, fun c hc => of_mem_lastRun hc⟩
    have hbefore : EndsOutsideWord (beforeLastWord phrase) := not_of_getLast?_beforeRun
    rw [ofPhrase_word hword, ← ofPhrase_append hbefore hword, hphrase]

/-! ## The law -/

/-- Plurals keep the spelling of the word. But for capitals, the plural of a word is that of the
word in lower case. What it goes on like that with, it has in the letters of the word itself, unless
a capital stands in there behind the first letter and not all letters are capitals. And of a phrase
only the letters at the end are changed. -/
theorem plurals_keep_the_spelling (word phrase : List Char) :
    (word ≠ [] → (∀ c ∈ word, c.isAlpha = true) →
      let plural := Inflector.english.plural word
      let lower := lowerText word
      plural.map Char.toLower = Plural.ofLower lower ∧
      ∀ shared, shared <+: lower → shared <+: Plural.ofLower lower →
        (plural.take shared.length = word.take shared.length ↔
          (∀ c ∈ word, c.isUpper = true) ∨
            ∀ c ∈ (word.take shared.length).tail, c.isUpper = false)) ∧
    ∃ before last, phrase = before ++ last ∧ EndsOutsideWord before ∧
      (∀ c ∈ last, isAlphabetic c = true) ∧
      Inflector.english.plural phrase = before ++ Inflector.english.plural last := by
  constructor
  · intro hne hletters plural lower
    have hword : IsWord word := ⟨hne, fun c hc => isAlphabetic_of_isAlpha (hletters c hc)⟩
    have hlower : lower = word.map Char.toLower :=
      lowerAfter_of_ascii (fun c hc => ascii_of_isAlpha (hletters c hc)) []
    have hsmall : InSmall (Plural.ofLower lower) := by
      refine (kept_inSmall fun c hc => ?_).ofLower
      rw [hlower] at hc
      obtain ⟨letter, hletter, rfl⟩ := List.mem_map.mp hc
      exact isLower_toLower (hletters letter hletter)
    have hplural : plural = matchCapitals word (Plural.ofLower lower) := Plural.ofPhrase_word hword
    rw [hplural]
    refine ⟨map_toLower_matchCapitals hletters hne hsmall, fun shared hstart hgoes => ?_⟩
    rw [hlower] at hstart
    exact take_matchCapitals hletters hne hsmall hstart hgoes
  · exact ⟨Plural.beforeLastWord phrase, Plural.lastWord phrase,
      (beforeRun_append_lastRun isAlphabetic phrase).symm, not_of_getLast?_beforeRun,
      fun c hc => of_mem_lastRun hc, Plural.ofPhrase_eq_append phrase⟩

/-- An irregular plural of a word in capitals. -/
theorem children_keep_the_spelling :
    (Inflector.english.plural "CHILD".toList).map Char.toLower = "children".toList ∧
      (Inflector.english.plural "CHILD".toList).take 5 = "CHILD".toList := by
  have hplural : Plural.ofLower (Unicode.lowerText "CHILD".toList) = "children".toList := by
    decide +kernel
  have hgoes : "child".toList <+: Plural.ofLower (Unicode.lowerText "CHILD".toList) := by
    rw [hplural]
    decide
  have hcapitals : ∀ c ∈ "CHILD".toList, c.isUpper = true := by decide
  obtain ⟨hsame, hspelling⟩ :=
    (plurals_keep_the_spelling "CHILD".toList []).1 (by decide) (by decide)
  exact ⟨hsame.trans hplural,
    (hspelling "child".toList (by decide +kernel) hgoes).mpr (.inl hcapitals)⟩

/-- The plural only puts a letter behind the word, but a capital in the word is lost. -/
theorem inner_capital_is_lost :
    let word := "McDonald".toList
    let lower := Unicode.lowerText word
    lower <+: Plural.ofLower lower ∧
      Inflector.english.plural word = "Mcdonalds".toList ∧
      (Inflector.english.plural word).take lower.length ≠ word := by
  decide +kernel

end TextGrammar
