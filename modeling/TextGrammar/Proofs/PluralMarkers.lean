-- The law of plural markers. A marker makes the word in front of it plural as the modifier does,
-- unless the number nearest before the word is one.
import TextGrammar.Expansion.Basic
import TextGrammar.Proofs.LeftoverMarkers
import TextGrammar.Proofs.RoundTrip
import TextGrammar.Proofs.WrittenDoubles

namespace TextGrammar

/-! ## The number before a word -/

/-- A digit or a point. -/
def isDigitOrPoint (c : Char) : Bool := c.isDigit || c == '.'

/-- Before `rest`, in which no digit stands, `run` is what a text has up to its last digit: digits
and points, with neither in front of them. -/
structure EndsRun (before run rest : List Char) : Prop where
  consists : ∀ c ∈ run, isDigitOrPoint c = true
  maximal : ∀ c ∈ before.getLast?, isDigitOrPoint c = false
  ends : ∃ c ∈ run.getLast?, c.isDigit = true
  isLast : ∀ c ∈ rest, c.isDigit = false

/-- The digits and points up to the last digit of the text, without the points that they start
with, read as a number that is one. -/
def CountsOne (text : List Char) : Prop :=
  ∃ before run rest, text = before ++ run ++ rest ∧ EndsRun before run rest ∧
    ∃ x, Double.read? (run.dropWhile (· == '.')) = some x ∧ x.numEq .one = true

/-- No name for a number can be written with digits and points. -/
theorem named?_eq_none {negative : Bool} {cs : List Char}
    (h : ∀ c ∈ cs, isDigitOrPoint c = true) : Double.named? negative cs = none := by
  have hascii : ∀ n < 0x80, isDigitOrPoint (Char.ofNat n) = true →
      (Char.ofNat n).toLower ≠ 'n' := by decide
  have hn : 'n' ∉ cs.map Char.toLower := by
    intro hmem
    obtain ⟨c, hc, heq⟩ := List.mem_map.mp hmem
    by_cases hcode : c.toNat < 0x80
    · exact forall_ascii (P := fun c => isDigitOrPoint c = true → c.toLower ≠ 'n') hascii hcode
        (h c hc) heq
    · rw [toLower_of_not_ascii hcode] at heq
      exact hcode (heq ▸ by decide)
  have hnames : ∀ name ∈ ["inf", "infinity", "nan"],
      String.ofList (cs.map Char.toLower) ≠ name := by
    rintro name hname heq
    have hletters : ∀ name ∈ ["inf", "infinity", "nan"], 'n' ∈ name.toList := by decide
    rw [← String.toList_inj, String.toList_ofList] at heq
    exact hn (heq ▸ hletters name hname)
  unfold Double.named?
  split
  · exact absurd ‹_› (hnames _ (by simp))
  · exact absurd ‹_› (hnames _ (by simp))
  · exact absurd ‹_› (hnames _ (by simp))
  · rfl

/-- Digits and points are read as a decimal or not at all. -/
theorem read?_of_digitsOrPoints {cs : List Char} (h : ∀ c ∈ cs, isDigitOrPoint c = true) :
    Double.read? cs = if isDecimal cs then some (.ofDecimal false cs 0) else none := by
  have hdigits : ∀ c ∈ cs, c.isDigit = true ∨ c = '.' := fun c hc => by
    simpa [isDigitOrPoint] using h c hc
  rw [Double.read?_of_digits hdigits, Double.readUnsigned?_of_digits hdigits, named?_eq_none h]

section

variable {before run rest text : List Char}

theorem numberBefore?_eq (h : EndsRun before run rest) :
    Inline.numberBefore? (before ++ run ++ rest).reverse =
      Double.read? (run.dropWhile (· == '.')) := by
  obtain ⟨last, hlast, hdigit⟩ := h.ends
  have hupTo : beforeRun (fun c => !c.isDigit) (before ++ run ++ rest) = before ++ run := by
    refine beforeRun_append (fun c hc => ?_) fun c hc => by rw [h.isLast c hc, Bool.not_false]
    rw [List.getLast?_append, hlast, Option.some_or] at hc
    cases hc
    rw [hdigit, Bool.not_true]
  have hrun : lastRun isDigitOrPoint (before ++ run) = run := lastRun_append h.maximal h.consists
  have hnumber : ∀ c ∈ run.dropWhile (· == '.'), isDigitOrPoint c = true := fun c hc =>
    h.consists c ((List.dropWhile_sublist _).subset hc)
  rw [read?_of_digitsOrPoints hnumber, Inline.numberBefore?, List.reverse_eq_iff.mp hupTo]
  unfold lastRun isDigitOrPoint at hrun
  simp only [hrun]

/-- A text with a digit has a run that the last one ends. -/
theorem exists_endsRun (h : ∃ c ∈ text, c.isDigit = true) :
    ∃ before run rest, text = before ++ run ++ rest ∧ EndsRun before run rest := by
  have hsplit := beforeRun_append_lastRun (fun c => !c.isDigit) text
  have hends : ∀ c ∈ (beforeRun (fun c => !c.isDigit) text).getLast?, (!c.isDigit) = false :=
    not_of_getLast?_beforeRun
  have hrest : ∀ c ∈ lastRun (fun c => !c.isDigit) text, c.isDigit = false := fun c hc => by
    simpa using of_mem_lastRun hc
  generalize beforeRun (fun c => !c.isDigit) text = upTo at *
  generalize lastRun (fun c => !c.isDigit) text = rest at *
  subst hsplit
  have hnonempty : upTo ≠ [] := by
    rintro rfl
    obtain ⟨c, hc, hdigit⟩ := h
    rw [hrest c hc] at hdigit
    cases hdigit
  have hlast := List.getLast?_eq_some_getLast hnonempty
  have hdigit : (upTo.getLast hnonempty).isDigit = true := by simpa using hends _ hlast
  have hpoint : ∀ c ∈ upTo.getLast?, isDigitOrPoint c = true := by
    intro c hc
    rw [hlast] at hc
    cases hc
    rw [isDigitOrPoint, hdigit, Bool.true_or]
  refine ⟨beforeRun isDigitOrPoint upTo, lastRun isDigitOrPoint upTo, rest, ?_,
    fun c hc => of_mem_lastRun hc, not_of_getLast?_beforeRun, ⟨_, ?_, hdigit⟩, hrest⟩
  · rw [beforeRun_append_lastRun]
  · rw [getLast?_lastRun hpoint, hlast]
    rfl

theorem numberBefore?_eq_none (h : ∀ c ∈ text, c.isDigit = false) :
    Inline.numberBefore? text.reverse = none := by
  have hdrop : text.reverse.dropWhile (fun c => !c.isDigit) = [] := by
    rw [List.dropWhile_eq_nil_iff]
    intro c hc
    rw [h c (List.mem_reverse.mp hc)]
    rfl
  rw [Inline.numberBefore?, hdrop]
  rfl

/-- The model's search from the end finds that number. -/
theorem countsOne_iff (text : List Char) :
    Inline.countsOne text.reverse = true ↔ CountsOne text := by
  constructor
  · intro h
    by_cases hdigit : ∃ c ∈ text, c.isDigit = true
    · obtain ⟨before, run, rest, rfl, hruns⟩ := exists_endsRun hdigit
      rw [Inline.countsOne, numberBefore?_eq hruns, Option.any_eq_true] at h
      exact ⟨before, run, rest, rfl, hruns, h⟩
    · have hnone : ∀ c ∈ text, c.isDigit = false := fun c hc =>
        Bool.eq_false_iff.mpr fun hc' => hdigit ⟨c, hc, hc'⟩
      rw [Inline.countsOne, numberBefore?_eq_none hnone] at h
      cases h
  · rintro ⟨before, run, rest, rfl, hruns, hread⟩
    rw [Inline.countsOne, numberBefore?_eq hruns, Option.any_eq_true]
    exact hread

end

/-! ## Counting in digits -/

namespace Double

theorem magnitude_eq_iff {m n : Magnitude} : m = n ↔ m.units = n.units := by
  cases m
  cases n
  exact Magnitude.mk.injEq _ _ _ _ ▸ Iff.rfl

/-- A rounded number is one when its units are those of one. -/
theorem numEq_one_ofUnits (num den : Nat) :
    (ofUnits false num den).numEq .one = true ↔ roundUnits num den = unitsPerOne := by
  rw [one]
  unfold ofUnits
  split
  · rw [numEq_finite, magnitude_eq_iff]
  · rename_i hfits
    refine ⟨fun hone => absurd hone Bool.false_ne_true, fun hunits => absurd ?_ hfits⟩
    rw [hunits, unitsPerOne]
    exact fits_twoPow (by decide)

/-- A whole number is rounded to one only when it is one. -/
theorem roundUnits_whole_eq_one_iff (n : Nat) :
    roundUnits (n * unitsPerOne) 1 = unitsPerOne ↔ n = 1 := by
  have hpos := unitsPerOne_pos
  have hgrid : grain unitsPerOne ∣ unitsPerOne := grain_twoPow_dvd _
  constructor
  · intro h
    rcases Nat.lt_trichotomy n 1 with hzero | hone | htwo
    · have hle : roundUnits (n * unitsPerOne) 1 ≤ 0 :=
        roundUnits_le Nat.one_pos (Nat.dvd_zero _)
          (by rw [Nat.lt_one_iff.mp hzero, Nat.zero_mul, Nat.zero_mul])
      omega
    · exact hone
    · have hdouble : grain (2 * unitsPerOne) ∣ 2 * unitsPerOne := by
        have heq : 2 * unitsPerOne = twoPow (oneBits + 1) := by
          have htwo : twoPow 1 = 2 := rfl
          rw [twoPow_add, htwo, Nat.mul_comm, unitsPerOne]
        rw [heq]
        exact grain_twoPow_dvd _
      have hle : 2 * unitsPerOne ≤ roundUnits (n * unitsPerOne) 1 :=
        le_roundUnits Nat.one_pos hdouble
          (by rw [Nat.mul_one]; exact Nat.mul_le_mul_right _ htwo)
      omega
  · rintro rfl
    rw [Nat.one_mul]
    have hsame := roundUnits_mul Nat.one_pos hgrid
    rwa [Nat.mul_one] at hsame

theorem numEq_one_ofScientific (n : Nat) :
    (ofScientific false n 0).numEq .one = true ↔ n = 1 := by
  have hlength : (0 : Int) ≤ (spellNat n).length := Int.natCast_nonneg _
  unfold ofScientific powerLimit
  dsimp only
  split_ifs with hzero htop
  · have hn : n = 0 := by
      simp only [Bool.or_eq_true, decide_eq_true_eq] at hzero
      omega
    rw [numEq_one_ofUnits, hn]
    have hwhole := roundUnits_whole_eq_one_iff 0
    rwa [Nat.zero_mul] at hwhole
  · refine ⟨fun hone => absurd hone Bool.false_ne_true, ?_⟩
    rintro rfl
    exact absurd htop (by decide)
  · rw [numEq_one_ofUnits]
    simpa using roundUnits_whole_eq_one_iff n
  · contradiction

end Double

/-- A number in digits counts one only when it is one. -/
theorem countsOne_spellNat (n : Nat) : CountsOne (spellNat n ++ [' ']) ↔ n = 1 := by
  have hdigits : ∀ c ∈ spellNat n, c.isDigit = true := fun c hc => isDigit_of_mem_spellNat hc
  have hruns : EndsRun [] (spellNat n) [' '] := by
    refine ⟨fun c hc => ?_, nofun, ⟨(spellNat n).getLast (spellNat_ne_nil n), ?_, ?_⟩, by decide⟩
    · rw [isDigitOrPoint, hdigits c hc, Bool.true_or]
    · exact List.getLast?_eq_some_getLast _
    · exact hdigits _ (List.getLast_mem _)
  have hnumber := numberBefore?_eq hruns
  have hpoints : (spellNat n).dropWhile (· == '.') = spellNat n := by
    obtain ⟨c, cs, heq⟩ := List.exists_cons_of_ne_nil (spellNat_ne_nil n)
    have hc := ne_point_of_isDigit (hdigits c (heq ▸ List.mem_cons_self))
    rw [heq, List.dropWhile_cons_of_neg (by simpa using hc)]
  rw [← countsOne_iff, ← List.nil_append (spellNat n), Inline.countsOne, hnumber, hpoints,
    read?_of_digitsOrPoints hruns.consists, if_pos (isDecimal_digits (spellNat_ne_nil n) hdigits),
    Option.any_some, Double.ofDecimal_digits hdigits, spelledNat_spellNat,
    Double.numEq_one_ofScientific]

/-! ## The marker -/

namespace Inline

section

variable {text : List Char}

/-- A marker for a plural is none for an article. -/
theorem hasArticle_pluralMarker (h : '(' ∉ text) (inWord : Bool) :
    hasArticle inWord (text ++ "(s)".toList) = false := by
  induction text generalizing inWord with
  | nil => cases inWord <;> decide
  | cons c cs ih =>
    have hcs : '(' ∉ cs := fun hmem => h (List.mem_cons_of_mem c hmem)
    have hstart : startsN (cs ++ "(s)".toList) = false := by
      cases cs with
      | nil => rfl
      | cons d ds =>
        refine Bool.eq_false_iff.mpr fun hstart => ?_
        obtain ⟨n, rest, heq, _⟩ := exists_of_startsN hstart
        exact hcs ((List.cons.inj heq).1 ▸ List.mem_cons_self)
    rw [List.cons_append, hasArticle, startsArticle_cons, hstart, ih hcs, Bool.and_false,
      Bool.false_and, Bool.or_false]

/-- What comes before the first parenthesis is kept for the marker there. -/
theorem resolvePlurals_append (inflector : Inflector) (h : '(' ∉ text) (out since cs : List Char) :
    resolvePlurals inflector out since.reverse (text ++ cs) =
      resolvePlurals inflector out (since ++ text).reverse cs := by
  induction text generalizing since with
  | nil => rw [List.nil_append, List.append_nil]
  | cons c text ih =>
    rw [List.mem_cons, not_or] at h
    have hmark := startsPlural_of_ne (Ne.symm h.1) (text ++ cs)
    have hread := ih h.2 (since ++ [c])
    rw [List.append_assoc, List.singleton_append, List.reverse_append] at hread
    rw [List.cons_append, ByPosition.resolvePlurals_unmarked inflector hmark]
    exact hread

/-- What a marker gives behind a text without parentheses that ends in a word. -/
theorem resolve_pluralMarker (inflector : Inflector) (h : '(' ∉ text)
    (hword : Plural.lastWord text ≠ []) :
    resolve inflector (text ++ "(s)".toList) = Plural.beforeLastWord text ++
      if countsOne (Plural.beforeLastWord text).reverse then Plural.lastWord text
      else inflector.plural (Plural.lastWord text) := by
  have hempty : (lastRun Unicode.isAlphabetic text).isEmpty = false := by
    rw [List.isEmpty_eq_false_iff]
    exact hword
  have hread := resolvePlurals_append inflector h [] [] "(s)".toList
  rw [resolve_eq_both, resolveArticles_of_unmarked inflector (hasArticle_pluralMarker h false)]
  change resolvePlurals inflector [] [] (text ++ "(s)".toList) =
    resolvePlurals inflector [] ([] ++ text).reverse ('(' :: 's' :: ')' :: []) at hread
  have hmarked := ByPosition.resolvePlurals_marked inflector (.inl rfl : 's' = 's' ∨ _) [] text []
  rw [List.reverse_nil, List.nil_append] at hmarked
  rw [hread, List.nil_append, hmarked, hempty, if_neg Bool.false_ne_true, resolvePlurals]
  simp only [List.nil_append, List.reverse_reverse]
  rfl

end

end Inline

/-! ## The law -/

/-- A text that ends in a letter ends in a word, and what stands before that does not. -/
theorem lastWord_spec {text : List Char} (h : ∃ c ∈ text.getLast?, Unicode.isAlphabetic c = true) :
    text = Plural.beforeLastWord text ++ Plural.lastWord text ∧
      IsWord (Plural.lastWord text) ∧ EndsOutsideWord (Plural.beforeLastWord text) := by
  obtain ⟨last, hlast, hletter⟩ := h
  have hends : ∀ c ∈ text.getLast?, Unicode.isAlphabetic c = true := fun c hc =>
    Option.mem_unique hc hlast ▸ hletter
  refine ⟨(beforeRun_append_lastRun Unicode.isAlphabetic text).symm,
    ⟨fun hnil => ?_, fun c hc => of_mem_lastRun hc⟩, not_of_getLast?_beforeRun⟩
  have hword : (Plural.lastWord text).getLast? = text.getLast? := getLast?_lastRun hends
  rw [hnil, hlast] at hword
  cases hword

section

variable {text : List Char}

theorem resolve_pluralMarker_of_countsOne (kind : InflectorKind) (h : '(' ∉ text)
    (hends : ∃ c ∈ text.getLast?, Unicode.isAlphabetic c = true)
    (hone : CountsOne (Plural.beforeLastWord text)) :
    Inline.resolve kind.inflector (text ++ "(s)".toList) = text := by
  obtain ⟨hsplit, hword, _⟩ := lastWord_spec hends
  rw [Inline.resolve_pluralMarker kind.inflector h hword.nonempty,
    if_pos ((countsOne_iff _).mpr hone), ← hsplit]

theorem resolve_pluralMarker_of_not_countsOne (kind : InflectorKind) (h : '(' ∉ text)
    (hends : ∃ c ∈ text.getLast?, Unicode.isAlphabetic c = true)
    (hmany : ¬CountsOne (Plural.beforeLastWord text)) :
    Inline.resolve kind.inflector (text ++ "(s)".toList) = kind.inflector.modify text .plural := by
  obtain ⟨hsplit, hword, houtside⟩ := lastWord_spec hends
  rw [Inline.resolve_pluralMarker kind.inflector h hword.nonempty,
    if_neg fun hone => hmany ((countsOne_iff _).mp hone), ← plural_append kind houtside hword,
    ← hsplit]
  rfl

end

/-- A word behind a number and a blank is the last word of a text without parentheses. -/
theorem numbered_word (n : Nat) {word : List Char} (hword : IsWord word) :
    '(' ∉ spellNat n ++ ' ' :: word ∧
      (∃ c ∈ (spellNat n ++ ' ' :: word).getLast?, Unicode.isAlphabetic c = true) ∧
      Plural.beforeLastWord (spellNat n ++ ' ' :: word) = spellNat n ++ [' '] := by
  refine ⟨?_, ⟨word.getLast hword.nonempty, ?_, ?_⟩, ?_⟩
  · rw [List.mem_append, List.mem_cons]
    rintro (hdigit | hblank | hletter)
    · have hdigit := isDigit_of_mem_spellNat hdigit
      revert hdigit
      decide
    · revert hblank
      decide
    · exact hword.parenFree _ hletter (by decide)
  · simp [List.getLast?_append, List.getLast?_cons, List.getLast?_eq_some_getLast hword.nonempty]
  · exact hword.letters _ (List.getLast_mem _)
  · have houtside : EndsOutsideWord (spellNat n ++ [' ']) := by
      intro c hc
      rw [List.getLast?_concat] at hc
      cases hc
      decide
    have hbefore := Plural.beforeLastWord_append houtside hword.letters
    rwa [List.append_assoc] at hbefore

/-- A marker behind a text that ends in a letter leaves the text as it is when the number nearest
before its last word is one, and gives what the plural modifier gives otherwise. A number in digits
and a blank before a word make it plural unless the number is one. -/
theorem plural_markers_go_by_the_number (kind : InflectorKind) :
    (∀ text : List Char, '(' ∉ text → (∃ c ∈ text.getLast?, Unicode.isAlphabetic c = true) →
      (CountsOne (Plural.beforeLastWord text) →
        Inline.resolve kind.inflector (text ++ "(s)".toList) = text) ∧
      (¬CountsOne (Plural.beforeLastWord text) →
        Inline.resolve kind.inflector (text ++ "(s)".toList) =
          kind.inflector.modify text .plural)) ∧
    ∀ (n : Nat) (word : List Char), IsWord word →
      let phrase := spellNat n ++ ' ' :: word
      Inline.resolve kind.inflector (phrase ++ "(s)".toList) =
        if n = 1 then phrase else kind.inflector.modify phrase .plural := by
  refine ⟨fun text hparen hends => ⟨resolve_pluralMarker_of_countsOne kind hparen hends,
    resolve_pluralMarker_of_not_countsOne kind hparen hends⟩, ?_⟩
  intro n word hword phrase
  obtain ⟨hparen, hends, hbefore⟩ := numbered_word n hword
  have hcounts : CountsOne (Plural.beforeLastWord phrase) ↔ n = 1 := by
    rw [hbefore]
    exact countsOne_spellNat n
  split_ifs with hone
  · exact resolve_pluralMarker_of_countsOne kind hparen hends (hcounts.mpr hone)
  · exact resolve_pluralMarker_of_not_countsOne kind hparen hends (mt hcounts.mp hone)

/-- One loaf in decimals behind points is one, and two loaves are more. -/
theorem loaves_go_by_the_number :
    CountsOne "..1.0 ".toList ∧ ¬CountsOne "2 ".toList ∧ IsWord "loaf".toList ∧
      Inline.resolve InflectorKind.full.inflector "..1.0 loaf(s)".toList = "..1.0 loaf".toList ∧
      Inline.resolve InflectorKind.full.inflector "2 loaf(s)".toList = "2 loaves".toList ∧
      Inline.resolve InflectorKind.full.inflector "12 loaf(s)".toList = "12 loaves".toList := by
  have hone : CountsOne "..1.0 ".toList :=
    ⟨[], "..1.0".toList, [' '], rfl, ⟨by decide, nofun, ⟨'0', rfl, by decide⟩, by decide⟩,
      _, rfl, by decide +kernel⟩
  have htwo : ¬CountsOne "2 ".toList := mt (countsOne_spellNat 2).mp (by decide)
  have hword : IsWord "loaf".toList := ⟨by decide, by decide⟩
  have hlaw := plural_markers_go_by_the_number .full
  refine ⟨hone, htwo, hword, ?_, ?_, ?_⟩
  · exact (hlaw.1 "..1.0 loaf".toList (by decide) ⟨'f', rfl, by decide⟩).1 hone
  · exact ((hlaw.1 "2 loaf".toList (by decide) ⟨'f', rfl, by decide⟩).2 htwo).trans
      (by decide +kernel)
  · exact (hlaw.2 12 "loaf".toList hword).trans (by decide +kernel)

end TextGrammar
