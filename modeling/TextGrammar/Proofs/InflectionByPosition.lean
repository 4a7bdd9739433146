-- Inflection by positions. A phrase is cut in front of its last word at an offset in bytes, the
-- ordinal of a number is told by its last two bytes, and the markers of a text are found by offsets
-- in bytes or by positions in it. Every such offset falls between two characters, so that no step
-- is missing in any text, and each way gives what the characters give.
import TextGrammar.Proofs.Positions
import TextGrammar.Proofs.Numerals
import TextGrammar.Inflection.Inline

namespace TextGrammar

/-! ## The end of a text -/

/-- A text without what satisfies `q` at its end. -/
def beforeRun (q : Char → Bool) (text : List Char) : List Char := (text.reverse.dropWhile q).reverse

/-- What satisfies `q` at the end of a text. -/
def lastRun (q : Char → Bool) (text : List Char) : List Char := (text.reverse.takeWhile q).reverse

theorem beforeRun_append_lastRun (q : Char → Bool) (text : List Char) :
    beforeRun q text ++ lastRun q text = text := by
  rw [beforeRun, lastRun, ← List.reverse_append, List.takeWhile_append_dropWhile,
    List.reverse_reverse]

section

variable {q : Char → Bool} {text before run : List Char}

theorem of_mem_lastRun {c : Char} (h : c ∈ lastRun q text) : q c = true :=
  List.all_eq_true.mp List.all_takeWhile c (List.mem_reverse.mp h)

theorem not_of_getLast?_beforeRun : ∀ c ∈ (beforeRun q text).getLast?, q c = false := by
  intro c hc
  have hfirst := List.head?_dropWhile_not q text.reverse
  rw [beforeRun, List.getLast?_reverse] at hc
  rw [hc] at hfirst
  simpa using hfirst

/-- What a text ends in is the end of the run there, if it is in the run. -/
theorem getLast?_lastRun (h : ∀ c ∈ text.getLast?, q c = true) :
    (lastRun q text).getLast? = text.getLast? := by
  rw [← List.head?_reverse] at h ⊢
  rw [lastRun, List.reverse_reverse, ← List.head?_reverse]
  cases hreverse : text.reverse with
  | nil => rfl
  | cons c cs =>
    rw [hreverse] at h
    rw [List.takeWhile_cons_of_pos (h c rfl)]
    rfl

/-- A run that nothing in front of it belongs to is the last. -/
theorem lastRun_append (hbefore : ∀ c ∈ before.getLast?, q c = false)
    (hrun : ∀ c ∈ run, q c = true) : lastRun q (before ++ run) = run := by
  rw [← List.head?_reverse] at hbefore
  rw [lastRun, List.reverse_append,
    List.takeWhile_append_of_pos fun c hc => hrun c (List.mem_reverse.mp hc)]
  cases hreverse : before.reverse with
  | nil => rw [List.takeWhile_nil, List.append_nil, List.reverse_reverse]
  | cons c cs =>
    rw [hreverse] at hbefore
    rw [List.takeWhile_cons_of_neg (by simp [hbefore c rfl]), List.append_nil,
      List.reverse_reverse]

theorem beforeRun_append (hbefore : ∀ c ∈ before.getLast?, q c = false)
    (hrun : ∀ c ∈ run, q c = true) : beforeRun q (before ++ run) = before := by
  have hsplit := beforeRun_append_lastRun q (before ++ run)
  rw [lastRun_append hbefore hrun] at hsplit
  exact List.append_cancel_right hsplit

end

theorem byteSize_reverse (text : List Char) : byteSize text.reverse = byteSize text := by
  induction text with
  | nil => rfl
  | cons c text ih =>
    rw [List.reverse_cons, byteSize_append, ih, Nat.add_comm, byteSize_cons, byteSize_cons,
      byteSize_nil, Nat.add_zero]

theorem utf8Size_of_isDigit {c : Char} (h : c.isDigit = true) : c.utf8Size = 1 := by
  have hbound := (toNat_of_isDigit h).2
  rw [Char.utf8Size_eq_one_iff, UInt32.le_iff_toNat_le]
  exact Nat.le_trans hbound (by decide)

namespace ByPosition

/-- In a text given from its end, the offset of the character nearest to that end which satisfies
`p`, and the character. -/
def fromEnd? (p : Char → Bool) : List Char → Option (Nat × Char)
  | [] => none
  | c :: before => if p c then some (byteSize before, c) else fromEnd? p before

/-- The offset of the last character that satisfies `p`, and the character. -/
def lastAt? (p : Char → Bool) (text : List Char) : Option (Nat × Char) := fromEnd? p text.reverse

/-- In a text given from its end, the offset of the first of the characters satisfying `q` that
stand at the end, or `start` when there is none. -/
def runStart (q : Char → Bool) (start : Nat) : List Char → Nat
  | [] => start
  | c :: before => if q c then runStart q (byteSize before) before else start

/-- Behind the character there are only characters that do not satisfy `p`. -/
theorem fromEnd?_eq (p : Char → Bool) (reversed : List Char) :
    fromEnd? p reversed = match reversed.dropWhile (fun c => !p c) with
      | [] => none
      | c :: before => some (byteSize before, c) := by
  induction reversed with
  | nil => rfl
  | cons c before ih =>
    rw [fromEnd?, List.dropWhile_cons]
    cases p c with
    | true => rfl
    | false => exact ih

/-- Behind the last character that does not satisfy `q`, a text has what satisfies `q` at its
end. -/
theorem lastAt?_elim (q : Char → Bool) (text : List Char) :
    (lastAt? (fun c => !q c) text).elim 0 (fun (i, c) => i + c.utf8Size) =
      byteSize (beforeRun q text) := by
  rw [lastAt?, fromEnd?_eq, beforeRun, byteSize_reverse]
  simp only [Bool.not_not]
  cases text.reverse.dropWhile q with
  | nil => rfl
  | cons c before => exact Nat.add_comm _ _

/-- The offset of a character is where it stands: it ends the text without the run behind it. -/
theorem lastAt?_eq_some {p : Char → Bool} {text : List Char} {i : Nat} {c : Char}
    (h : lastAt? p text = some (i, c)) :
    ∃ before, beforeRun (fun c => !p c) text = before ++ [c] ∧ byteSize before = i ∧
      p c = true := by
  have hhead := List.head?_dropWhile_not (fun c => !p c) text.reverse
  rw [lastAt?, fromEnd?_eq] at h
  rw [beforeRun]
  cases hrun : text.reverse.dropWhile (fun c => !p c) with
  | nil =>
    rw [hrun] at h
    cases h
  | cons d before =>
    rw [hrun] at h hhead
    cases h
    exact ⟨before.reverse, List.reverse_cons, byteSize_reverse before, by simpa using hhead⟩

theorem runStart_dropWhile (q : Char → Bool) (reversed : List Char) :
    runStart q (byteSize reversed) reversed = byteSize (reversed.dropWhile q) := by
  induction reversed with
  | nil => rfl
  | cons c before ih =>
    rw [runStart, List.dropWhile_cons]
    cases q c with
    | true => exact ih
    | false => rfl

theorem runStart_eq (q : Char → Bool) (text : List Char) :
    runStart q (byteSize text) text.reverse = byteSize (beforeRun q text) := by
  rw [← byteSize_reverse text, runStart_dropWhile, beforeRun, byteSize_reverse]

/-! ## Ordinals -/

/-- The ending after the byte of the tens and the last byte of a number. -/
def ordinalEnding (tens last : UInt8) : List Char :=
  if tens = '1'.toUInt8 then ['t', 'h']
  else if last = '1'.toUInt8 then ['s', 't']
  else if last = '2'.toUInt8 then ['n', 'd']
  else if last = '3'.toUInt8 then ['r', 'd']
  else ['t', 'h']

/-- The ordinal of a number in digits, told by its last two bytes. -/
def ordinal (number : List Char) : Option (List Char) :=
  let digits := (trim number).dropWhile (· == '-')
  if digits.isEmpty || !digits.all Char.isDigit then some (number ++ ['t', 'h'])
  else do
    let bytes := digits.flatMap String.utf8EncodeChar
    let i ← minus? bytes.length 1
    let last ← bytes[i]?
    let tens ← if 1 < bytes.length then do
        let j ← minus? bytes.length 2
        bytes[j]?
      else some '0'.toUInt8
    some (number ++ ordinalEnding tens last)

/-- Digits take one byte each. -/
theorem encode_digits {digits : List Char} (h : digits.all Char.isDigit = true) :
    digits.flatMap String.utf8EncodeChar = digits.map fun c => c.toUInt8 := by
  induction digits with
  | nil => rfl
  | cons c digits ih =>
    rw [List.all_cons, Bool.and_eq_true] at h
    rw [List.flatMap_cons, ih h.2,
      String.utf8EncodeChar_eq_singleton (utf8Size_of_isDigit h.1)]
    rfl

/-- Digits are told apart by their bytes. -/
theorem toUInt8_eq_iff {c d : Char} (hc : c.isDigit = true) (hd : d.isDigit = true) :
    c.toUInt8 = d.toUInt8 ↔ c = d := by
  have hcbound := (toNat_of_isDigit hc).2
  have hdbound := (toNat_of_isDigit hd).2
  constructor
  · intro h
    have hbytes : c.toNat % 256 = d.toNat % 256 := congrArg UInt8.toNat h
    exact Char.toNat_inj.mp (by omega)
  · rintro rfl
    rfl

theorem ordinalEnding_eq {tens last : Char} (htens : tens.isDigit = true)
    (hlast : last.isDigit = true) (before : List Char) :
    ordinalEnding tens.toUInt8 last.toUInt8 = Ordinal.ending (last :: tens :: before) := by
  have hone : '1'.isDigit = true := by decide
  have htwo : '2'.isDigit = true := by decide
  have hthree : '3'.isDigit = true := by decide
  simp only [ordinalEnding, toUInt8_eq_iff htens hone, toUInt8_eq_iff hlast hone,
    toUInt8_eq_iff hlast htwo, toUInt8_eq_iff hlast hthree]
  by_cases hteen : tens = '1'
  · rw [if_pos hteen, hteen, Ordinal.ending]
  · rw [if_neg hteen]
    split_ifs with h1 h2 h3
    · simp [h1, Ordinal.ending, hteen]
    · simp [h2, Ordinal.ending, hteen]
    · simp [h3, Ordinal.ending, hteen]
    · simp [Ordinal.ending, hteen, h1, h2, h3]

/-- A digit by itself counts as one behind a zero. -/
theorem ending_zero (last : Char) : Ordinal.ending [last, '0'] = Ordinal.ending [last] := by
  by_cases h1 : last = '1'
  · rw [h1]; rfl
  by_cases h2 : last = '2'
  · rw [h2]; rfl
  by_cases h3 : last = '3'
  · rw [h3]; rfl
  simp [Ordinal.ending, h1, h2, h3]

theorem ordinal_eq (number : List Char) : ordinal number = some (Ordinal.ofText number) := by
  rw [ordinal, Ordinal.ofText]
  dsimp only
  generalize (trim number).dropWhile (· == '-') = digits
  cases hdigits : digits.all Char.isDigit with
  | false => simp
  | true =>
    have hmem : ∀ c ∈ digits, c.isDigit = true := List.all_eq_true.mp hdigits
    rw [encode_digits hdigits]
    -- The digits from the last one back.
    rcases digits.eq_nil_or_concat with rfl | ⟨init, last, rfl⟩
    · rfl
    have hlast : last.isDigit = true := hmem last (by simp)
    rcases init.eq_nil_or_concat with rfl | ⟨before, tens, rfl⟩
    · have hending := ordinalEnding_eq (by decide : '0'.isDigit = true) hlast []
      rw [ending_zero] at hending
      simp [minus?, hending]
    · have htens : tens.isDigit = true := hmem tens (by simp)
      simpa [minus?] using ordinalEnding_eq htens hlast before.reverse

/-! ## Plurals of phrases -/

/-- The plural of a word without exceptions, which a "y" is cut off from. -/
def regular (word : List Char) : Option (List Char) :=
  match word.reverse with
  | 'y' :: before :: _ =>
    if ['a', 'e', 'i', 'o', 'u'].contains before then some (Plural.byEnding word)
    else do
      let stop ← minus? (byteSize word) 1
      let stem ← cutBytes? word 0 stop
      some (stem ++ ['i', 'e', 's'])
  | _ => some (Plural.byEnding word)

/-- The plural of a word in lower case. -/
def ofLower (word : List Char) : Option (List Char) :=
  if Plural.uninflected.contains (String.ofList word) then some word
  else
    match Plural.irregular.lookup (String.ofList word) with
    | some plural => some plural.toList
    | none =>
      match (Plural.ofMan? "woman" "women" word).or (Plural.ofMan? "man" "men" word) with
      | some plural => some plural
      | none => regular word

/-- Where the last word of a phrase starts: behind the last character that is no letter. -/
def wordStart (phrase : List Char) : Option Nat :=
  match lastAt? (fun c => !Unicode.isAlphabetic c) phrase with
  | none => some 0
  | some (i, _) => do
    let rest ← cutBytes? phrase i (byteSize phrase)
    some (i + rest.head?.elim 1 Char.utf8Size)

/-- The plural of a phrase. -/
def plural (phrase : List Char) : Option (List Char) := do
  let start ← wordStart phrase
  let (before, word) ← splitBytes? start phrase
  if word.isEmpty then some phrase
  else do
    let inflected ← ofLower (Unicode.lowerText word)
    some (before ++ matchCapitals word inflected)

theorem regular_of_not_y {word : List Char}
    (h : ∀ before stem, word.reverse ≠ 'y' :: before :: stem) :
    regular word = some (Plural.byEnding word) := by
  unfold regular
  split
  · exact absurd ‹_› (h _ _)
  · rfl

theorem plural_regular_of_not_y {word : List Char}
    (h : ∀ before stem, word.reverse ≠ 'y' :: before :: stem) :
    Plural.regular word = Plural.byEnding word := by
  unfold Plural.regular
  split
  · exact absurd ‹_› (h _ _)
  · rfl

theorem regular_eq (word : List Char) : regular word = some (Plural.regular word) := by
  by_cases h : ∃ before stem, word.reverse = 'y' :: before :: stem
  · obtain ⟨before, stem, hword⟩ := h
    have hcut : cutBytes? word 0 (byteSize (before :: stem).reverse) =
        some (before :: stem).reverse := by
      rw [← word.reverse_reverse, hword, List.reverse_cons]
      exact cutBytes?_before _ _
    -- The "y" is the last byte.
    have hsize : byteSize word = byteSize (before :: stem).reverse + 1 := by
      rw [← byteSize_reverse word, hword, byteSize_reverse]
      exact Nat.add_comm _ _
    simp only [regular, Plural.regular, hword, hsize, minus?_succ, Option.bind_eq_bind,
      Option.bind_some, hcut]
    split <;> rfl
  · have hnot : ∀ before stem, word.reverse ≠ 'y' :: before :: stem := fun before stem hword =>
      h ⟨before, stem, hword⟩
    rw [regular_of_not_y hnot, plural_regular_of_not_y hnot]

theorem ofLower_eq (word : List Char) : ofLower word = some (Plural.ofLower word) := by
  rw [ofLower, Plural.ofLower]
  split
  · rfl
  cases Plural.irregular.lookup (String.ofList word) with
  | some plural => rfl
  | none =>
    cases (Plural.ofMan? "woman" "women" word).or (Plural.ofMan? "man" "men" word) with
    | some plural => rfl
    | none => exact regular_eq word

theorem wordStart_eq (phrase : List Char) :
    wordStart phrase = some (byteSize (beforeRun Unicode.isAlphabetic phrase)) := by
  rw [← lastAt?_elim, wordStart]
  cases hlast : lastAt? (fun c => !Unicode.isAlphabetic c) phrase with
  | none => rfl
  | some place =>
    obtain ⟨i, c⟩ := place
    obtain ⟨before, hbefore, rfl, _⟩ := lastAt?_eq_some hlast
    have hphrase := beforeRun_append_lastRun (fun c => !!Unicode.isAlphabetic c) phrase
    rw [hbefore, List.append_assoc] at hphrase
    rw [← hphrase]
    dsimp only [Option.bind_eq_bind]
    rw [cutBytes?_after]
    rfl

theorem plural_eq (phrase : List Char) : plural phrase = some (Plural.ofPhrase phrase) := by
  have hsplit : splitBytes? (byteSize (beforeRun Unicode.isAlphabetic phrase)) phrase =
      some (beforeRun Unicode.isAlphabetic phrase, lastRun Unicode.isAlphabetic phrase) := by
    have happend := splitBytes?_append (beforeRun Unicode.isAlphabetic phrase)
      (lastRun Unicode.isAlphabetic phrase)
    rwa [beforeRun_append_lastRun] at happend
  rw [plural, wordStart_eq, Plural.ofPhrase]
  dsimp only [Option.bind_eq_bind, Option.bind_some]
  rw [hsplit, Option.bind_some]
  dsimp only
  rw [ofLower_eq, Option.bind_some]
  -- The word and what stands before it are the two parts.
  change _ = some (if (lastRun Unicode.isAlphabetic phrase).isEmpty then phrase
    else beforeRun Unicode.isAlphabetic phrase ++ _)
  split <;> rfl

/-! ## Inflectors -/

/-- Ways to inflect a phrase, of which steps may be missing. -/
structure Inflector where
  article : List Char → Option Article
  plural : List Char → Option (List Char)
  ordinal : List Char → Option (List Char)

/-- No step of the inflector is missing, and it inflects as the other does. -/
structure Inflector.Follows (inflector : Inflector) (other : TextGrammar.Inflector) : Prop where
  article : ∀ phrase, inflector.article phrase = some (other.article phrase)
  plural : ∀ phrase, inflector.plural phrase = some (other.plural phrase)
  ordinal : ∀ number, inflector.ordinal number = some (other.ordinal number)

/-- The inflector of a kind. -/
def inflector : InflectorKind → Inflector
  | .full => ⟨fun phrase => some (Article.ofPhrase phrase), plural, ordinal⟩
  | .fallback =>
    ⟨fun phrase => some (Article.ofSpelling phrase), fun phrase => some (Plural.bySpelling phrase),
      ordinal⟩

/-- The inflector of each kind misses no step, whatever it is asked for. -/
theorem inflector_follows (kind : InflectorKind) : (inflector kind).Follows kind.inflector := by
  cases kind with
  | full => exact ⟨fun _ => rfl, plural_eq, ordinal_eq⟩
  | fallback => exact ⟨fun _ => rfl, fun _ => rfl, ordinal_eq⟩

/-! ## Article markers -/

/-- A letter or number stands in front of position `i` of a text. -/
def inWordAt? (text : List Char) (i : Nat) : Option Bool :=
  if i = 0 then some false
  else do
    let j ← minus? i 1
    let c ← text[j]?
    some (Unicode.isAlphanumeric c)

/-- An article marker stands at position `i` of a text. -/
def articleMarkAt (text : List Char) (i : Nat) : Option Bool :=
  if i + 4 ≤ text.length then do
    let a ← text[i]?
    let opening ← text[i + 1]?
    let n ← text[i + 2]?
    let closing ← text[i + 3]?
    let inWord ← inWordAt? text i
    some (a.toLower == 'a' && opening == '(' && n.toLower == 'n' && closing == ')' && !inWord)
  else some false

/-- The article for the marker at position `i`. -/
def articleFor (inflector : Inflector) (text : List Char) (i : Nat) : Option (List Char) := do
  let rest ← cut? text (i + 4) text.length
  let next := (rest.dropWhile Unicode.isWhiteSpace).takeWhile Unicode.isAlphanumeric
  let article ← if next.isEmpty then some Article.a else inflector.article next
  let a ← text[i]?
  let n ← text[i + 2]?
  let letters := if Unicode.isUppercase a then capitalize article.letters else article.letters
  some (if Unicode.isUppercase n then Unicode.upperText letters else letters)

/-- What a text becomes from position `i` on, with articles for their markers. -/
def resolveArticles (inflector : Inflector) (text : List Char) :
    (rounds : Nat) → (i : Nat) → Option (List Char)
  | 0, _ => none
  | rounds + 1, i =>
    if i < text.length then do
      let marked ← articleMarkAt text i
      if marked then do
        let article ← articleFor inflector text i
        let rest ← resolveArticles inflector text rounds (i + 4)
        some (article ++ rest)
      else do
        let c ← text[i]?
        let rest ← resolveArticles inflector text rounds (i + 1)
        some (c :: rest)
    else some []

/-- A text starts with an article marker, where `inWord` says that a letter or number stands in
front of it. -/
def startsArticle (inWord : Bool) : List Char → Bool
  | a :: '(' :: n :: ')' :: _ => a.toLower == 'a' && n.toLower == 'n' && !inWord
  | _ => false

theorem exists_of_startsArticle {inWord : Bool} {cs : List Char}
    (h : startsArticle inWord cs = true) : ∃ a n rest, cs = a :: '(' :: n :: ')' :: rest := by
  unfold startsArticle at h
  split at h
  · exact ⟨_, _, _, rfl⟩
  · cases h

section

variable (other : TextGrammar.Inflector) {inWord : Bool}

theorem resolveArticles_marked {a n : Char} {rest : List Char}
    (h : startsArticle inWord (a :: '(' :: n :: ')' :: rest) = true) :
    Inline.resolveArticles other inWord (a :: '(' :: n :: ')' :: rest) =
      Inline.articleFor other a n rest ++ Inline.resolveArticles other false rest := by
  rw [Inline.resolveArticles]
  exact if_pos h

theorem resolveArticles_unmarked {c : Char} {cs : List Char}
    (h : startsArticle inWord (c :: cs) = false) : Inline.resolveArticles other inWord (c :: cs) =
      c :: Inline.resolveArticles other (Unicode.isAlphanumeric c) cs := by
  rw [Inline.resolveArticles.eq_def]
  split
  · cases ‹c :: cs = []›
  · rename_i heq
    cases heq
    exact if_neg (Bool.eq_false_iff.mp h)
  · rename_i heq
    cases heq
    rfl

end

section

variable {text : List Char} {i : Nat}

theorem getElem?_of_drop {cs : List Char} (h : text.drop i = cs) (k : Nat) :
    text[i + k]? = cs[k]? := by
  rw [← h, List.getElem?_drop]

theorem le_length_of_drop {cs : List Char} (h : text.drop i = cs) (hne : cs ≠ []) :
    i + cs.length = text.length := by
  have hlength : text.length - i = cs.length := by rw [← h, List.length_drop]
  have hpos := List.length_pos_of_ne_nil hne
  omega

/-- A letter or number stands in front of a position. -/
def inWordAt (text : List Char) : (i : Nat) → Bool
  | 0 => false
  | i + 1 => text[i]?.any Unicode.isAlphanumeric

theorem inWordAt?_eq (h : i ≤ text.length) : inWordAt? text i = some (inWordAt text i) := by
  cases i with
  | zero => rfl
  | succ i =>
    obtain ⟨c, hc, _⟩ := exists_of_lt_length h
    rw [inWordAt?, if_neg (Nat.succ_ne_zero i), minus?_succ, inWordAt, hc]
    dsimp only [Option.bind_eq_bind, Option.bind_some]
    rw [hc]
    rfl

theorem articleMarkAt_eq (text : List Char) (i : Nat) :
    articleMarkAt text i = some (startsArticle (inWordAt text i) (text.drop i)) := by
  rw [articleMarkAt]
  by_cases hroom : i + 4 ≤ text.length
  · rw [if_pos hroom]
    obtain ⟨a, ha, hdrop⟩ := exists_of_lt_length (by omega : i < text.length)
    obtain ⟨opening, hopening, hdrop1⟩ := exists_of_lt_length (by omega : i + 1 < text.length)
    obtain ⟨n, hn, hdrop2⟩ := exists_of_lt_length (by omega : i + 2 < text.length)
    obtain ⟨closing, hclosing, hdrop3⟩ := exists_of_lt_length (by omega : i + 3 < text.length)
    rw [hdrop, hdrop1, hdrop2, hdrop3, ha, hopening, hn, hclosing, inWordAt?_eq (by omega)]
    dsimp only [Option.bind_eq_bind, Option.bind_some]
    by_cases hopen : opening = '('
    · by_cases hclose : closing = ')'
      · simp [startsArticle, hopen, hclose]
      · simp [startsArticle, hclose]
    · simp [startsArticle, hopen]
  · rw [if_neg hroom]
    -- Too few characters are left for a marker.
    cases hmark : startsArticle (inWordAt text i) (text.drop i) with
    | false => rfl
    | true =>
      obtain ⟨a, n, rest, hdrop⟩ := exists_of_startsArticle hmark
      have hlength := le_length_of_drop hdrop (List.cons_ne_nil _ _)
      simp only [List.length_cons] at hlength
      omega

variable {inflector : Inflector} {other : TextGrammar.Inflector}

theorem articleFor_eq (h : inflector.Follows other) {a n : Char} {rest : List Char}
    (hdrop : text.drop i = a :: '(' :: n :: ')' :: rest) :
    articleFor inflector text i = some (Inline.articleFor other a n rest) := by
  have hlength := le_length_of_drop hdrop (List.cons_ne_nil _ _)
  simp only [List.length_cons] at hlength
  have ha : text[i]? = some a := getElem?_of_drop hdrop 0
  have hn : text[i + 2]? = some n := getElem?_of_drop hdrop 2
  have hrest : text.drop (i + 4) = rest := by rw [← List.drop_drop, hdrop]; rfl
  rw [articleFor, cut?_length (by omega), hrest, ha, hn, Inline.articleFor]
  dsimp only [Option.bind_eq_bind, Option.bind_some]
  rw [h.article]
  split <;> rfl

theorem resolveArticles_eq (h : inflector.Follows other) {rounds : Nat} (hi : i ≤ text.length)
    (hrounds : text.length < i + rounds) : resolveArticles inflector text rounds i =
      some (Inline.resolveArticles other (inWordAt text i) (text.drop i)) := by
  induction rounds generalizing i with
  | zero => omega
  | succ rounds ih =>
    rw [resolveArticles]
    by_cases hlt : i < text.length
    · rw [if_pos hlt, articleMarkAt_eq]
      dsimp only [Option.bind_eq_bind, Option.bind_some]
      cases hmark : startsArticle (inWordAt text i) (text.drop i) with
      | true =>
        obtain ⟨a, n, rest, hdrop⟩ := exists_of_startsArticle hmark
        have hlength := le_length_of_drop hdrop (List.cons_ne_nil _ _)
        simp only [List.length_cons] at hlength
        have hrest : text.drop (i + 4) = rest := by rw [← List.drop_drop, hdrop]; rfl
        have hclosing : text[i + 3]? = some ')' := getElem?_of_drop hdrop 3
        have hword : inWordAt text (i + 4) = false := by
          rw [inWordAt, hclosing]
          decide +kernel
        rw [hdrop] at hmark
        rw [if_pos rfl, articleFor_eq h hdrop, ih (by omega) (by omega), hdrop,
          resolveArticles_marked other hmark, hrest, hword]
        rfl
      | false =>
        obtain ⟨c, hc, hdrop⟩ := exists_of_lt_length hlt
        rw [hdrop] at hmark
        rw [if_neg Bool.false_ne_true, hc, ih (by omega) (by omega), hdrop,
          resolveArticles_unmarked other hmark, inWordAt, hc]
        rfl
    · rw [if_neg hlt, List.drop_eq_nil_of_le (Nat.le_of_not_lt hlt), Inline.resolveArticles]

end

/-! ## Plural markers -/

/-- The offset of the first place where `part` stands in a text that starts at an offset. -/
def find? (part : List Char) : (offset : Nat) → List Char → Option Nat
  | _, [] => none
  | offset, c :: cs =>
    if part.isPrefixOf (c :: cs) then some offset else find? part (offset + c.utf8Size) cs

/-- The offset of the first plural marker, whichever letter it has. -/
def pluralMark? (text : List Char) : Option Nat :=
  (find? ['(', 's', ')'] 0 text).merge min (find? ['(', 'S', ')'] 0 text)

/-- The number nearest to the end of a text. -/
def lastNumber? (text : List Char) : Option (Option Double) :=
  match lastAt? Char.isDigit text with
  | none => some none
  | some (last, _) => do
    let upTo ← cutBytes? text 0 (last + 1)
    let start := (lastAt? (fun c => !(c.isDigit || c == '.')) upTo).elim 0
      fun (i, c) => i + c.utf8Size
    let run ← cutBytes? text start (last + 1)
    let number := run.dropWhile (· == '.')
    some (if isDecimal number then some (.ofDecimal false number 0) else none)

/-- What is written for a marker with a letter behind a word, after the text `out`. -/
def markedWord (inflector : Inflector) (out word letter : List Char) : Option (List Char) :=
  if word.isEmpty then some letter
  else do
    let number? ← lastNumber? out
    if number?.any (·.numEq .one) then some word else inflector.plural word

/-- Puts plurals for the markers in `rest`, behind the text `out`. -/
def resolvePlurals (inflector : Inflector) : (rounds : Nat) → (out rest : List Char) →
    Option (List Char)
  | 0, _, _ => none
  | rounds + 1, out, rest =>
    match pluralMark? rest with
    | none => some (out ++ rest)
    | some mark => do
      let before ← cutBytes? rest 0 mark
      let letter ← cutBytes? rest (mark + 1) (mark + 2)
      let start := runStart Unicode.isAlphabetic (byteSize before) before.reverse
      let word ← cutBytes? before start (byteSize before)
      let head ← cutBytes? before 0 start
      let written ← markedWord inflector (out ++ head) word letter
      let rest ← cutBytes? rest (mark + 3) (byteSize rest)
      resolvePlurals inflector rounds (out ++ head ++ written) rest

/-- Resolves the markers of a text, articles first. -/
def resolve (inflector : Inflector) (text : List Char) : Option (List Char) :=
  if text.contains '(' then do
    let text ← resolveArticles inflector text (text.length + 1) 0
    resolvePlurals inflector (text.length + 1) [] text
  else some text

/-- A text that ends in a run has it behind what stands before the run. -/
theorem cutBytes?_lastRun (q : Char → Bool) (text : List Char) :
    cutBytes? text (byteSize (beforeRun q text)) (byteSize text) = some (lastRun q text) := by
  have hcut := cutBytes?_after (beforeRun q text) (lastRun q text)
  rwa [beforeRun_append_lastRun] at hcut

theorem cutBytes?_beforeRun (q : Char → Bool) (text : List Char) :
    cutBytes? text 0 (byteSize (beforeRun q text)) = some (beforeRun q text) := by
  have hcut := cutBytes?_before (beforeRun q text) (lastRun q text)
  rwa [beforeRun_append_lastRun] at hcut

/-- The letter of a marker is cut out by its bytes. -/
theorem cutBytes?_letter {letter : Char} (hletter : letter = 's' ∨ letter = 'S')
    (a rest : List Char) : cutBytes? (a ++ '(' :: letter :: ')' :: rest) (byteSize a + 1)
      (byteSize a + 2) = some [letter] := by
  have hsize : letter.utf8Size = 1 := by rcases hletter with rfl | rfl <;> rfl
  have hopen : '('.utf8Size = 1 := rfl
  have hcut := cutBytes?_append (a ++ ['(']) [letter] (')' :: rest)
  simpa [hsize, hopen, Nat.add_assoc] using hcut

/-- What stands behind a marker is cut out by its bytes. -/
theorem cutBytes?_behind {letter : Char} (hletter : letter = 's' ∨ letter = 'S')
    (a rest : List Char) : cutBytes? (a ++ '(' :: letter :: ')' :: rest) (byteSize a + 3)
      (byteSize (a ++ '(' :: letter :: ')' :: rest)) = some rest := by
  have hmarker : byteSize ['(', letter, ')'] = 3 := by rcases hletter with rfl | rfl <;> rfl
  have hcut := cutBytes?_after (a ++ ['(', letter, ')']) rest
  rw [byteSize_append, hmarker, List.append_assoc] at hcut
  exact hcut

theorem lastNumber?_eq (text : List Char) :
    lastNumber? text = some (Inline.numberBefore? text.reverse) := by
  rw [lastNumber?, Inline.numberBefore?]
  cases hlast : lastAt? Char.isDigit text with
  | none =>
    have hnone : text.reverse.dropWhile (fun c => !c.isDigit) = [] := by
      rw [lastAt?, fromEnd?_eq] at hlast
      split at hlast
      · assumption
      · cases hlast
    rw [hnone]
    rfl
  | some place =>
    obtain ⟨last, digit⟩ := place
    obtain ⟨before, hbefore, rfl, hdigit⟩ := lastAt?_eq_some hlast
    have hupTo : byteSize before + 1 = byteSize (beforeRun (fun c => !c.isDigit) text) := by
      rw [hbefore, byteSize_append, byteSize_cons, utf8Size_of_isDigit hdigit, byteSize_nil]
    -- The text is what stands before the number, the number, and what follows the last digit.
    have hrun := cutBytes?_append
      (beforeRun (fun c => c.isDigit || c == '.') (beforeRun (fun c => !c.isDigit) text))
      (lastRun (fun c => c.isDigit || c == '.') (beforeRun (fun c => !c.isDigit) text))
      (lastRun (fun c => !c.isDigit) text)
    rw [beforeRun_append_lastRun, beforeRun_append_lastRun] at hrun
    dsimp only [Option.bind_eq_bind, Option.bind_some]
    rw [hupTo, cutBytes?_beforeRun, Option.bind_some, lastAt?_elim, hrun, Option.bind_some,
      lastRun, beforeRun, List.reverse_reverse]

theorem markedWord_eq {inflector : Inflector} {other : TextGrammar.Inflector}
    (h : inflector.Follows other) (out word letter : List Char) :
    markedWord inflector out word letter = some (if word.isEmpty then letter
      else if Inline.countsOne out.reverse then word else other.plural word) := by
  rw [markedWord, lastNumber?_eq, h.plural, Inline.countsOne]
  dsimp only [Option.bind_eq_bind, Option.bind_some]
  split
  · rfl
  · split <;> rfl

theorem find?_ge {part : List Char} {offset i : Nat} {cs : List Char}
    (h : find? part offset cs = some i) : offset ≤ i := by
  induction cs generalizing offset with
  | nil => cases h
  | cons c cs ih =>
    rw [find?] at h
    split_ifs at h
    · cases h
      exact Nat.le_refl _
    · exact Nat.le_trans (Nat.le_add_right _ _) (ih h)

/-- A text starts with a plural marker. -/
def startsPlural : List Char → Bool
  | '(' :: letter :: ')' :: _ => letter == 's' || letter == 'S'
  | _ => false

theorem exists_of_startsPlural {cs : List Char} (h : startsPlural cs = true) :
    ∃ letter rest, cs = '(' :: letter :: ')' :: rest ∧ (letter = 's' ∨ letter = 'S') := by
  unfold startsPlural at h
  split at h
  · exact ⟨_, _, rfl, by simpa using h⟩
  · cases h

theorem startsPlural_of_isPrefixOf {letter : Char} {cs : List Char}
    (hletter : letter = 's' ∨ letter = 'S') (h : ['(', letter, ')'].isPrefixOf cs = true) :
    startsPlural cs = true := by
  obtain ⟨rest, rfl⟩ := List.isPrefixOf_iff_prefix.mp h
  simpa [startsPlural] using hletter

theorem pluralMark?_marked {cs : List Char} (h : startsPlural cs = true) (offset : Nat) :
    (find? ['(', 's', ')'] offset cs).merge min (find? ['(', 'S', ')'] offset cs) =
      some offset := by
  obtain ⟨letter, rest, rfl, hletter⟩ := exists_of_startsPlural h
  have hfound : find? ['(', letter, ')'] offset ('(' :: letter :: ')' :: rest) = some offset := by
    rw [find?]
    exact if_pos (by simp)
  -- The other marker, if there is one, stands further on.
  rcases hletter with rfl | rfl
  · rw [hfound]
    cases hother : find? ['(', 'S', ')'] offset ('(' :: 's' :: ')' :: rest) with
    | none => rfl
    | some i => exact congrArg some (Nat.min_eq_left (find?_ge hother))
  · rw [hfound]
    cases hother : find? ['(', 's', ')'] offset ('(' :: 'S' :: ')' :: rest) with
    | none => rfl
    | some i => exact congrArg some (Nat.min_eq_right (find?_ge hother))

theorem find?_unmarked {letter c : Char} {cs : List Char} (hletter : letter = 's' ∨ letter = 'S')
    (h : startsPlural (c :: cs) = false) (offset : Nat) :
    find? ['(', letter, ')'] offset (c :: cs) =
      find? ['(', letter, ')'] (offset + c.utf8Size) cs := by
  rw [find?]
  refine if_neg fun hprefix => ?_
  rw [startsPlural_of_isPrefixOf hletter hprefix] at h
  cases h

section

variable (other : TextGrammar.Inflector)

theorem resolvePlurals_unmarked {c : Char} {cs : List Char} (h : startsPlural (c :: cs) = false)
    (before since : List Char) : Inline.resolvePlurals other before since (c :: cs) =
      Inline.resolvePlurals other before (c :: since) cs := by
  rw [Inline.resolvePlurals.eq_def]
  split
  · cases ‹c :: cs = []›
  · rename_i heq
    cases heq
    exact if_neg (Bool.eq_false_iff.mp h)
  · rename_i heq
    cases heq
    rfl

theorem resolvePlurals_marked {letter : Char} (hletter : letter = 's' ∨ letter = 'S')
    (out a rest : List Char) :
    Inline.resolvePlurals other out.reverse a.reverse ('(' :: letter :: ')' :: rest) =
      Inline.resolvePlurals other
        (out ++ beforeRun Unicode.isAlphabetic a ++
          if (lastRun Unicode.isAlphabetic a).isEmpty then [letter]
          else if Inline.countsOne (out ++ beforeRun Unicode.isAlphabetic a).reverse then
            lastRun Unicode.isAlphabetic a
          else other.plural (lastRun Unicode.isAlphabetic a)).reverse [] rest := by
  rw [Inline.resolvePlurals, if_pos (by simpa using hletter)]
  simp [beforeRun, lastRun]

/-- A text either has no plural marker, and then is read to its end, or it is read to the first. -/
theorem first_pluralMark (offset : Nat) (cs : List Char) :
    ((find? ['(', 's', ')'] offset cs).merge min (find? ['(', 'S', ')'] offset cs) = none ∧
        ∀ before since, Inline.resolvePlurals other before since cs =
          (since ++ before).reverse ++ cs) ∨
      ∃ a letter rest, cs = a ++ '(' :: letter :: ')' :: rest ∧ (letter = 's' ∨ letter = 'S') ∧
        (find? ['(', 's', ')'] offset cs).merge min (find? ['(', 'S', ')'] offset cs) =
          some (offset + byteSize a) ∧
        ∀ before since, Inline.resolvePlurals other before since cs =
          Inline.resolvePlurals other before (a.reverse ++ since)
            ('(' :: letter :: ')' :: rest) := by
  induction cs generalizing offset with
  | nil => exact .inl ⟨rfl, fun before since => by rw [Inline.resolvePlurals, List.append_nil]⟩
  | cons c cs ih =>
    cases hmark : startsPlural (c :: cs) with
    | true =>
      obtain ⟨letter, rest, heq, hletter⟩ := exists_of_startsPlural hmark
      rw [heq] at hmark ⊢
      exact .inr ⟨[], letter, rest, rfl, hletter, pluralMark?_marked hmark offset, fun _ _ => rfl⟩
    | false =>
      rw [find?_unmarked (.inl rfl) hmark, find?_unmarked (.inr rfl) hmark]
      obtain ⟨hnone, hread⟩ | ⟨a, letter, rest, rfl, hletter, hfound, hread⟩ :=
        ih (offset + c.utf8Size)
      · refine .inl ⟨hnone, fun before since => ?_⟩
        rw [resolvePlurals_unmarked other hmark, hread]
        simp
      · refine .inr ⟨c :: a, letter, rest, rfl, hletter, ?_, fun before since => ?_⟩
        · rw [hfound, byteSize_cons, Nat.add_assoc]
        · rw [resolvePlurals_unmarked other hmark, hread]
          simp

variable {other} {inflector : Inflector}

theorem resolvePlurals_eq (h : inflector.Follows other) {rounds : Nat} {rest : List Char}
    (hrounds : rest.length < rounds) (out : List Char) :
    resolvePlurals inflector rounds out rest =
      some (Inline.resolvePlurals other out.reverse [] rest) := by
  induction rounds generalizing out rest with
  | zero => cases hrounds
  | succ rounds ih =>
    rw [resolvePlurals, pluralMark?]
    obtain ⟨hnone, hread⟩ | ⟨a, letter, tail, rfl, hletter, hfound, hread⟩ :=
      first_pluralMark other 0 rest
    · rw [hnone, hread]
      simp
    · rw [hfound, hread, Nat.zero_add]
      simp only [List.length_append, List.length_cons] at hrounds
      dsimp only [Option.bind_eq_bind]
      rw [cutBytes?_before, Option.bind_some, cutBytes?_letter hletter, Option.bind_some,
        runStart_eq, cutBytes?_lastRun, Option.bind_some, cutBytes?_beforeRun, Option.bind_some,
        markedWord_eq h, Option.bind_some, cutBytes?_behind hletter, Option.bind_some,
        ih (by omega), List.append_nil, resolvePlurals_marked other hletter]

theorem resolve_eq (h : inflector.Follows other) (text : List Char) :
    resolve inflector text = some (Inline.resolve other text) := by
  rw [resolve, Inline.resolve]
  split
  · rw [resolveArticles_eq h (Nat.zero_le _) (by omega)]
    exact resolvePlurals_eq h (Nat.lt_succ_self _) []
  · rfl

end

/-- Offsets behind characters of two and three bytes. -/
example : resolve (inflector .full) "a(n) ünf, €1 Äpfel(s) or 2 élf(S)".toList =
    some "a ünf, €1 Äpfel or 2 élfs".toList := by
  decide +kernel

end ByPosition

end TextGrammar
