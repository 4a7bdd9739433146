-- Plurals of words. The plural of a phrase is that of its last word behind what stands before it,
-- and the plural of a word is a word again: it has two characters at least, and no parenthesis.
import Mathlib.Data.List.Basic
import TextGrammar.Proofs.InflectionByPosition
import TextGrammar.Proofs.LetterCases

namespace TextGrammar

/-- One or more letters. -/
structure IsWord (word : List Char) : Prop where
  nonempty : word ≠ []
  letters : ∀ c ∈ word, Unicode.isAlphabetic c = true

/-- A letter does not stand at the end of the text. -/
def EndsOutsideWord (text : List Char) : Prop :=
  ∀ c ∈ text.getLast?, Unicode.isAlphabetic c = false

theorem IsWord.parenFree {word : List Char} (h : IsWord word) : ParenFree word := by
  have hparens : ∀ mark ∈ parens, Unicode.isAlphabetic mark = false := by decide
  intro c hc hmem
  have hletter := h.letters c hc
  rw [hparens c hmem] at hletter
  cases hletter

namespace Plural

/-! ## The last word -/

section

variable {before word : List Char}

theorem lastWord_append (hbefore : EndsOutsideWord before)
    (hword : ∀ c ∈ word, Unicode.isAlphabetic c = true) : lastWord (before ++ word) = word :=
  lastRun_append hbefore hword

theorem beforeLastWord_append (hbefore : EndsOutsideWord before)
    (hword : ∀ c ∈ word, Unicode.isAlphabetic c = true) :
    beforeLastWord (before ++ word) = before :=
  beforeRun_append hbefore hword

/-- The plural of a phrase is that of its last word, behind what stands before that. -/
theorem ofPhrase_append (hbefore : EndsOutsideWord before) (hword : IsWord word) :
    ofPhrase (before ++ word) =
      before ++ matchCapitals word (ofLower (Unicode.lowerText word)) := by
  have hempty : word.isEmpty = false := by simpa using hword.nonempty
  rw [ofPhrase, lastWord_append hbefore hword.letters,
    beforeLastWord_append hbefore hword.letters]
  simp [hempty]

theorem ofPhrase_word (hword : IsWord word) :
    ofPhrase word = matchCapitals word (ofLower (Unicode.lowerText word)) := by
  have hnil : EndsOutsideWord [] := fun c hc => by cases hc
  exact ofPhrase_append hnil hword

end

/-! ## Hissing sounds -/

section

variable {a b : List Char}

theorem hisses_concat (a : List Char) (last : Char) :
    hisses (a ++ [last]) = (['s', 'x', 'z'].contains last ||
      last == 'h' && a.getLast?.any ['c', 's'].contains) := by
  rw [← List.head?_reverse]
  simp only [hisses, hissingEndings, List.isSuffixOf, List.reverse_append, List.any_cons,
    List.any_nil, List.reverse_cons, List.reverse_nil, List.nil_append, List.cons_append,
    List.isPrefixOf, List.contains_cons, List.contains_nil, Bool.or_false, Bool.and_true]
  cases a.reverse with
  | nil =>
    simp only [List.isPrefixOf, List.head?_nil, Option.any_none, Bool.and_false, Bool.or_false,
      Bool.beq_comm]
  | cons d ds =>
    simp only [List.isPrefixOf, List.head?_cons, Option.any_some, Bool.and_true,
      List.contains_cons, List.contains_nil, Bool.or_false, Bool.or_assoc,
      Bool.and_or_distrib_left, Bool.beq_comm]

/-- Only the last two characters matter, and before a last "h" only "c" and "s" do. -/
theorem hisses_append (ha : ∀ c ∈ a.getLast?, c ∉ ['c', 's']) (hb : b ≠ []) :
    hisses (a ++ b) = hisses b := by
  obtain ⟨init, last, rfl⟩ := (List.eq_nil_or_concat' b).resolve_left hb
  rw [← List.append_assoc, hisses_concat, hisses_concat, List.getLast?_append]
  cases hinit : init.getLast? with
  | some d => rfl
  | none =>
    have hnone : a.getLast?.any ['c', 's'].contains = false := by
      cases hlast : a.getLast? with
      | none => rfl
      | some d => simpa using ha d hlast
    rw [Option.none_or, hnone]
    rfl

theorem contains_plainSigma {marks : List Char} (hmarks : 'ς' ∉ marks ∧ 'σ' ∉ marks) (c : Char) :
    marks.contains (plainSigma c) = marks.contains c := by
  unfold plainSigma
  split
  · rename_i hsigma
    rw [hsigma]
    simp [hmarks]
  · rfl

theorem hisses_map_plainSigma (word : List Char) :
    hisses (word.map plainSigma) = hisses word := by
  obtain rfl | ⟨init, last, rfl⟩ := List.eq_nil_or_concat' word
  · rfl
  have hmarks : 'ς' ∉ ['h'] ∧ 'σ' ∉ ['h'] := by decide
  have hh : (plainSigma last == 'h') = (last == 'h') := by
    simpa only [List.contains_cons, List.contains_nil, Bool.or_false] using
      contains_plainSigma hmarks last
  have hcs : (plainSigma · |> ['c', 's'].contains) = ['c', 's'].contains :=
    funext (contains_plainSigma (by decide))
  rw [List.map_append, List.map_singleton, hisses_concat, hisses_concat, hh, List.getLast?_map,
    contains_plainSigma (by decide), Option.any_map]
  exact congrArg (fun p => _ || last == 'h' && init.getLast?.any p) hcs

/-- A text hisses as its last word does, whatever stands before that. -/
theorem hisses_lowerText_append (ha : EndsOutsideWord a) (hb : b ≠ []) :
    hisses (Unicode.lowerText (a ++ b)) = hisses (Unicode.lowerText b) := by
  have hlower (text : List Char) : hisses (Unicode.lowerText text) =
      hisses (text.flatMap plainLower) := by
    rw [← hisses_map_plainSigma, Unicode.lowerText, map_plainSigma_lowerAfter]
  have hflat : b.flatMap plainLower ≠ [] := by
    obtain ⟨c, cs, rfl⟩ := List.exists_cons_of_ne_nil hb
    simp [plainLower_ne_nil]
  rw [hlower, hlower, List.flatMap_append]
  refine hisses_append ?_ hflat
  intro d hd hmem
  obtain rfl | ⟨init, last, rfl⟩ := List.eq_nil_or_concat' a
  · cases hd
  · -- The last character of the lower case comes of the last character, which is no letter.
    rw [List.flatMap_append, List.flatMap_singleton, List.getLast?_append,
      List.getLast?_eq_some_getLast (plainLower_ne_nil last), Option.some_or] at hd
    cases hd
    have hletter := isAlphabetic_of_mem_plainLower (List.getLast_mem _) hmem
    rw [ha last (by simp)] at hletter
    cases hletter

end

/-! ## Words in lower case -/

/-- A property of texts that the plural of a word has: the plurals that are listed have it, and it
passes to a part of the word with an ending behind it. -/
structure Kept (P : List Char → Prop) (word : List Char) : Prop where
  uninflected : ∀ text ∈ uninflected, P text.toList
  irregular : ∀ entry ∈ irregular, P entry.2.toList
  ofMan : ∀ stem, stem <+: word → P (stem ++ "women".toList) ∧ P (stem ++ "men".toList)
  ofY : ∀ stem, stem <+: word → P (stem ++ ['i', 'e', 's'])
  ofEnding : P (word ++ ['e', 's']) ∧ P (word ++ ['s'])

section

variable {P : List Char → Prop} {word : List Char}

theorem Kept.byEnding (h : Kept P word) : P (byEnding word) := by
  rw [Plural.byEnding]
  split
  · exact h.ofEnding.1
  · exact h.ofEnding.2

theorem Kept.regular (h : Kept P word) : P (regular word) := by
  unfold Plural.regular
  split
  · rename_i before stem hword
    split
    · exact h.byEnding
    · refine h.ofY _ ⟨['y'], ?_⟩
      rw [← List.reverse_cons, ← hword, List.reverse_reverse]
  · exact h.byEnding

theorem ofMan?_eq_some {single plural : String} {found : List Char}
    (h : ofMan? single plural word = some found) :
    ∃ stem, stem <+: word ∧ found = stem ++ plural.toList := by
  unfold ofMan? dropEnding? at h
  split at h
  · simp only [Option.bind_eq_bind, Option.bind_some] at h
    split at h
    · cases h
      exact ⟨_, List.take_prefix _ _, rfl⟩
    · cases h
  · cases h

theorem Kept.ofLower (h : Kept P word) : P (ofLower word) := by
  unfold Plural.ofLower
  split
  · rename_i hsame
    have hword := h.uninflected (String.ofList word) (by simpa using hsame)
    rwa [String.toList_ofList] at hword
  split
  · rename_i plural hplural
    obtain ⟨before, after, hsplit, _⟩ := List.lookup_eq_some_iff.mp hplural
    have hmem : (String.ofList word, plural) ∈ Plural.irregular := by
      rw [hsplit]
      exact List.mem_append_right _ List.mem_cons_self
    exact h.irregular _ hmem
  · cases hwoman : ofMan? "woman" "women" word with
    | some found =>
      obtain ⟨stem, hstem, rfl⟩ := ofMan?_eq_some hwoman
      exact (h.ofMan stem hstem).1
    | none =>
      rw [Option.none_or]
      cases hman : ofMan? "man" "men" word with
      | some found =>
        obtain ⟨stem, hstem, rfl⟩ := ofMan?_eq_some hman
        exact (h.ofMan stem hstem).2
      | none => exact h.regular

end

end Plural

/-! ## Plurals of words -/

/-- Two characters at least, and no parenthesis. -/
structure Wordlike (text : List Char) : Prop where
  two_le : 2 ≤ text.length
  parenFree : ParenFree text

section

variable {text word : List Char}

theorem Wordlike.of_append {start ending : List Char} (hstart : ParenFree start)
    (hending : ParenFree ending) (h : 2 ≤ start.length + ending.length) :
    Wordlike (start ++ ending) :=
  ⟨by rwa [List.length_append], hstart.append hending⟩

theorem Wordlike.capitalize (h : Wordlike text) : Wordlike (capitalize text) := by
  cases text with
  | nil => exact h
  | cons c cs =>
    have hlength := h.two_le
    have hc := List.length_pos_iff.mpr (upperChar_ne_nil c)
    rw [List.length_cons] at hlength
    rw [TextGrammar.capitalize]
    exact .of_append (.upperChar (h.parenFree c List.mem_cons_self)) h.parenFree.tail (by omega)

theorem Wordlike.matchCapitals (h : Wordlike text) (model : List Char) :
    Wordlike (matchCapitals model text) := by
  unfold TextGrammar.matchCapitals
  dsimp only
  split
  · exact ⟨Nat.le_trans h.two_le (length_le_upperText text), h.parenFree.upperText⟩
  split
  · exact h.capitalize
  · exact h

/-- The plural of a word in lower case. -/
theorem kept_wordlike (hnonempty : word ≠ []) (hparens : ParenFree word) :
    Plural.Kept Wordlike word where
  uninflected text htext := by
    have hall : ∀ text ∈ Plural.uninflected, 2 ≤ text.toList.length ∧
        ∀ c ∈ text.toList, c ∉ parens := by decide +kernel
    exact ⟨(hall text htext).1, (hall text htext).2⟩
  irregular entry hentry := by
    have hall : ∀ entry ∈ Plural.irregular, 2 ≤ entry.2.toList.length ∧
        ∀ c ∈ entry.2.toList, c ∉ parens := by decide +kernel
    exact ⟨(hall entry hentry).1, (hall entry hentry).2⟩
  ofMan stem hstem := by
    have hstart : ParenFree stem := fun c hc => hparens c (hstem.subset hc)
    have hwomen : ∀ c ∈ "women".toList, c ∉ parens := by decide
    have hmen : ∀ c ∈ "men".toList, c ∉ parens := by decide
    exact ⟨.of_append hstart hwomen (Nat.le_add_left_of_le (by decide)),
      .of_append hstart hmen (Nat.le_add_left_of_le (by decide))⟩
  ofY stem hstem := by
    have hies : ∀ c ∈ ['i', 'e', 's'], c ∉ parens := by decide
    exact .of_append (fun c hc => hparens c (hstem.subset hc)) hies
      (Nat.le_add_left_of_le (by decide))
  ofEnding := by
    have hpos := List.length_pos_iff.mpr hnonempty
    have hes : ∀ c ∈ ['e', 's'], c ∉ parens := by decide
    have hs : ∀ c ∈ ['s'], c ∉ parens := by decide
    exact ⟨.of_append hparens hes (Nat.le_add_left_of_le (by decide)),
      .of_append hparens hs (Nat.add_le_add hpos (Nat.le_refl 1))⟩

/-- Plurals of words are like words, whatever the inflector. -/
theorem wordlike_plural (kind : InflectorKind) (h : IsWord word) :
    Wordlike (kind.inflector.plural word) := by
  have hpos := List.length_pos_iff.mpr h.nonempty
  cases kind with
  | full =>
    have hlower : Unicode.lowerText word ≠ [] :=
      List.length_pos_iff.mp (Nat.lt_of_lt_of_le hpos (length_le_lowerAfter [] word))
    change Wordlike (Plural.ofPhrase word)
    rw [Plural.ofPhrase_word h]
    exact (kept_wordlike hlower h.parenFree.lowerText).ofLower.matchCapitals word
  | fallback =>
    have hempty : word.isEmpty = false := by simpa using h.nonempty
    have hbyEnding := (kept_wordlike h.nonempty h.parenFree).ofEnding
    change Wordlike (Plural.bySpelling word)
    rw [Plural.bySpelling, hempty, if_neg Bool.false_ne_true]
    split
    · exact hbyEnding.1
    · exact hbyEnding.2

/-- The plural of a phrase is that of its last word behind what stands before it. -/
theorem plural_append (kind : InflectorKind) {before : List Char} (hbefore : EndsOutsideWord before)
    (h : IsWord word) : kind.inflector.plural (before ++ word) =
      before ++ kind.inflector.plural word := by
  cases kind with
  | full =>
    change Plural.ofPhrase (before ++ word) = before ++ Plural.ofPhrase word
    rw [Plural.ofPhrase_append hbefore h, Plural.ofPhrase_word h]
  | fallback =>
    have hempty : word.isEmpty = false := by simpa using h.nonempty
    have hphrase : (before ++ word).isEmpty = false := by simp [h.nonempty]
    change Plural.bySpelling (before ++ word) = before ++ Plural.bySpelling word
    rw [Plural.bySpelling, Plural.bySpelling, hempty, hphrase,
      Plural.hisses_lowerText_append hbefore h.nonempty]
    simp only [Bool.false_eq_true, if_false, List.append_assoc]

end

end TextGrammar
