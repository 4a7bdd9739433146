-- The law of the articles of numbers. A number in digits takes the article of its first group of
-- digits, as that is spoken. Its ordinal may take another: the two letters of the ending count as
-- digits there, so eleven and eighteen are looked for among groups of three.
import TextGrammar.Proofs.ArticleMarkers
import TextGrammar.Proofs.Numerals

namespace TextGrammar

/-! ## Groups of digits -/

/-- The number that the first group makes when the digits of a number are grouped in threes from the
right. -/
def firstGroup (n : Nat) : Nat := if n < 1000 then n else firstGroup (n / 1000)

theorem firstGroup_lt (n : Nat) : firstGroup n < 1000 := by
  induction n using firstGroup.induct with
  | case1 n hsmall => rwa [firstGroup, if_pos hsmall]
  | case2 n hlarge ih => rwa [firstGroup, if_neg hlarge]

theorem spellNat_of_lt_ten {n : Nat} (h : n < 10) : spellNat n = [n.digitChar] :=
  Nat.toDigits_of_lt_base h

/-- The last digit stands behind those of the tens. -/
theorem spellNat_tens {n : Nat} (h : 10 ≤ n) :
    spellNat n = spellNat (n / 10) ++ [(n % 10).digitChar] :=
  Nat.toDigits_of_base_le (by decide) h

/-- The last three digits stand behind those of the thousands. -/
theorem spellNat_thousands {n : Nat} (h : 1000 ≤ n) :
    ∃ a b c, spellNat n = spellNat (n / 1000) ++ [a, b, c] := by
  have hthousands : n / 10 / 10 / 10 = n / 1000 := by omega
  rw [spellNat_tens (by omega), spellNat_tens (n := n / 10) (by omega),
    spellNat_tens (n := n / 10 / 10) (by omega), hthousands, List.append_assoc, List.append_assoc]
  exact ⟨_, _, _, rfl⟩

/-- Behind the first group stand full groups. -/
theorem exists_groups (n : Nat) :
    ∃ rest, spellNat n = spellNat (firstGroup n) ++ rest ∧ 3 ∣ rest.length := by
  induction n using firstGroup.induct with
  | case1 n hsmall =>
    rw [firstGroup, if_pos hsmall]
    exact ⟨[], (List.append_nil _).symm, Nat.dvd_zero 3⟩
  | case2 n hlarge ih =>
    obtain ⟨a, b, c, hdigits⟩ := spellNat_thousands (Nat.le_of_not_lt hlarge)
    obtain ⟨rest, hrest, hdvd⟩ := ih
    rw [firstGroup, if_neg hlarge]
    refine ⟨rest ++ [a, b, c], ?_, ?_⟩
    · rw [hdigits, hrest, List.append_assoc]
    · rw [List.length_append]
      exact Nat.dvd_add hdvd (Nat.dvd_refl 3)

/-- The digits of a group of three. -/
theorem spellNat_hundreds {group : Nat} (hlow : 100 ≤ group) (hhigh : group < 1000) :
    spellNat group = [(group / 100).digitChar, (group / 10 % 10).digitChar,
      (group % 10).digitChar] := by
  have hhundreds : group / 10 / 10 = group / 100 := by omega
  rw [spellNat_tens (by omega), spellNat_tens (by omega), hhundreds, spellNat_of_lt_ten (by omega)]
  rfl

theorem digitChar_beq {d : Nat} (h : d < 10) :
    (d.digitChar == '8') = decide (d = 8) ∧ (d.digitChar == '1') = decide (d = 1) := by
  revert d
  decide

theorem ascii_of_mem_spellNat {n : Nat} {c : Char} (h : c ∈ spellNat n) : c.toNat < 0x80 := by
  have hhigh := (toNat_of_isDigit (isDigit_of_mem_spellNat h)).2
  omega

/-! ## Spoken numbers -/

/-- Spoken with a vowel at the start: eight, eleven, eighteen, eighty, eight hundred and so on. -/
def SpokenWithVowel (group : Nat) : Prop :=
  group = 8 ∨ group = 11 ∨ group = 18 ∨ 80 ≤ group ∧ group ≤ 89 ∨ 800 ≤ group ∧ group ≤ 899

instance (group : Nat) : Decidable (SpokenWithVowel group) := inferInstanceAs (Decidable (_ ∨ _))

theorem spokenWithVowel_hundreds {group : Nat} (hlow : 100 ≤ group) (hhigh : group < 1000) :
    SpokenWithVowel group ↔ group / 100 = 8 := by
  unfold SpokenWithVowel
  omega

/-- Not known for eleven or eighteen in front of the ending of an ordinal, or taken for one of these
when it has a digit more. -/
def MistakenAsOrdinal (group : Nat) : Prop :=
  group = 11 ∨ group = 18 ∨ 110 ≤ group ∧ group ≤ 119 ∨ 180 ≤ group ∧ group ≤ 189

instance (group : Nat) : Decidable (MistakenAsOrdinal group) := inferInstanceAs (Decidable (_ ∨ _))

/-! ## Articles of digits -/

/-- A text of ASCII characters has a byte for each. -/
theorem utf8ByteSize_of_ascii {cs : List Char} (h : ∀ c ∈ cs, c.toNat < 0x80) :
    (String.ofList cs).utf8ByteSize = cs.length := by
  induction cs with
  | nil => rfl
  | cons c cs ih =>
    have hc : c.utf8Size = 1 := by
      rw [Char.utf8Size_eq_one_iff, UInt32.le_iff_toNat_le]
      exact Nat.le_of_lt_succ (h c List.mem_cons_self)
    rw [String.ofList_cons, String.utf8ByteSize_append, String.utf8ByteSize_singleton, hc,
      ih fun d hd => h d (List.mem_cons_of_mem c hd), List.length_cons, Nat.add_comm]

theorem isAlphanumeric_of_isDigit {c : Char} (h : c.isDigit = true) :
    Unicode.isAlphanumeric c = true := by
  obtain ⟨_, hhigh⟩ := toNat_of_isDigit h
  have hascii : c.toNat < 0x80 := by omega
  rw [Unicode.isAlphanumeric, Unicode.isNumber, if_pos hascii, h, Bool.or_true]

namespace Article

variable {word : List Char}

/-- A text that is one word is its own first word. -/
theorem firstWord_of_alphanumeric (hne : word ≠ [])
    (h : ∀ c ∈ word, Unicode.isAlphanumeric c = true) : firstWord word = word := by
  obtain ⟨first, rest, rfl⟩ := List.exists_cons_of_ne_nil hne
  have hfirst := h first List.mem_cons_self
  have htrim : trimStart (first :: rest) = first :: rest :=
    List.dropWhile_cons_of_neg (by simp [not_isWhiteSpace_of_isAlphanumeric hfirst])
  have hstarts : StartsWord (first :: rest) := ⟨first, by rw [htrim]; rfl, hfirst⟩
  rw [firstWord_of_startsWord hstarts, nextWord, htrim, List.takeWhile_eq_self_iff]
  exact h

/-- A word that starts with a digit takes the article of a number. -/
theorem ofPhrase_number {first : Char} {rest : List Char} (hfirst : first.isDigit = true)
    (hrest : ∀ c ∈ rest, Unicode.isAlphanumeric c = true) :
    ofPhrase (first :: rest) = ofNumber (first :: rest) := by
  have hword : ∀ c ∈ first :: rest, Unicode.isAlphanumeric c = true := by
    intro c hc
    rcases List.mem_cons.mp hc with rfl | hc
    · exact isAlphanumeric_of_isDigit hfirst
    · exact hrest c hc
  rw [ofPhrase, firstWord_of_alphanumeric (List.cons_ne_nil _ _) hword]
  exact if_pos hfirst

/-- What the article of a number in ASCII characters goes by: these have a byte each. -/
def byLeadingDigits (word : List Char) : Article :=
  anIf (word.head? == some '8' ||
    word.length % 3 == 2 && (['1', '1'].isPrefixOf word || ['1', '8'].isPrefixOf word))

theorem ofNumber_ascii (h : ∀ c ∈ word, c.toNat < 0x80) : ofNumber word = byLeadingDigits word := by
  unfold ofNumber
  dsimp only
  rw [utf8ByteSize_of_ascii h, byLeadingDigits]

/-- The digits of eleven and eighteen count at the start of a word of the right length. -/
theorem byLeadingDigits_teen (a b : Char) {rest : List Char}
    (h : (a :: b :: rest).length % 3 = 2) : byLeadingDigits (a :: b :: rest) =
      anIf (a == '8' || a == '1' && (b == '1' || b == '8')) := by
  rw [byLeadingDigits, h]
  simp [List.isPrefixOf, Bool.beq_comm, Bool.and_or_distrib_left]

/-- Full groups behind the first one do not matter. -/
theorem ofNumber_groups {group rest ending : List Char} (hne : group ≠ []) (hdvd : 3 ∣ rest.length)
    (htwo : (group.length + ending.length) % 3 = 2 → 2 ≤ group.length)
    (h : ∀ c ∈ group ++ rest ++ ending, c.toNat < 0x80) :
    ofNumber (group ++ rest ++ ending) = ofNumber (group ++ ending) := by
  have hshort : ∀ c ∈ group ++ ending, c.toNat < 0x80 := by
    intro c hc
    apply h
    simp only [List.mem_append] at hc ⊢
    tauto
  have hsize : (group ++ rest ++ ending).length % 3 = (group ++ ending).length % 3 := by
    simp only [List.length_append]
    omega
  rw [ofNumber_ascii h, ofNumber_ascii hshort, byLeadingDigits, byLeadingDigits, hsize]
  match group with
  | [] => exact absurd rfl hne
  | [digit] =>
    -- A digit by itself leads neither eleven nor eighteen.
    have hsingle : ([digit] ++ ending).length % 3 ≠ 2 := by
      intro hteen
      rw [List.length_append] at hteen
      have hle : 2 ≤ 1 := htwo hteen
      omega
    rw [beq_eq_false_iff_ne.mpr hsingle, Bool.false_and, Bool.false_and]
    rfl
  | first :: second :: digits => rfl

end Article

/-! ## Ordinals -/

namespace Ordinal

/-- The minus in front of a number does not matter for the ending. -/
theorem ofText_spellInt (n : Int) :
    ofText (spellInt n) = spellInt n ++ ending (spellNat n.natAbs).reverse := by
  have hdigits : ∀ c ∈ spellNat n.natAbs, c.isDigit = true := fun c hc => isDigit_of_mem_spellNat hc
  have htrim : trim (spellInt n) = spellInt n :=
    trim_of_clean fun c hc => (isNameChar_of_mem_spellInt hc).clean.1
  have hunsigned : (spellNat n.natAbs).dropWhile (· == '-') = spellNat n.natAbs := by
    obtain ⟨c, cs, heq⟩ := List.exists_cons_of_ne_nil (spellNat_ne_nil n.natAbs)
    have hc := ne_hyphen_of_isDigit (hdigits c (heq ▸ List.mem_cons_self))
    rw [heq, List.dropWhile_cons_of_neg (by simpa using hc)]
  have hsign : (spellInt n).dropWhile (· == '-') = spellNat n.natAbs := by
    unfold spellInt
    split
    · exact (List.dropWhile_cons_of_pos rfl).trans hunsigned
    · exact hunsigned
  rw [ofText, htrim, hsign, if_pos (List.all_eq_true.mpr hdigits)]

theorem ofText_spellNat (n : Nat) :
    ofText (spellNat n) = spellNat n ++ ending (spellNat n).reverse := by
  have hspell : spellInt n = spellNat n := if_neg (Int.not_lt.mpr (Int.natCast_nonneg n))
  have hordinal := ofText_spellInt n
  rwa [hspell, Int.natAbs_natCast] at hordinal

/-- The endings of ordinals. -/
def endings : List (List Char) := [['s', 't'], ['n', 'd'], ['r', 'd'], ['t', 'h']]

theorem ending_mem (reversed : List Char) : ending reversed ∈ endings := by
  unfold ending
  split <;> decide

/-- An ending is two letters of ASCII. -/
theorem letters_of_mem_endings {ending : List Char} (h : ending ∈ endings) :
    ending.length = 2 ∧ ∀ c ∈ ending, c.toNat < 0x80 ∧ Unicode.isAlphanumeric c = true := by
  revert ending
  decide

end Ordinal

/-! ## Articles of whole numbers -/

namespace Article

/-- Before a number in digits, with the ending of an ordinal or without, the first group of the
digits is all that matters. -/
theorem ofPhrase_spellNat (n : Nat) {ending : List Char} (h : ending ∈ [] :: Ordinal.endings) :
    ofPhrase (spellNat n ++ ending) = ofNumber (spellNat (firstGroup n) ++ ending) := by
  obtain ⟨hlength, hletters⟩ : (ending.length = 0 ∨ ending.length = 2) ∧
      ∀ c ∈ ending, c.toNat < 0x80 ∧ Unicode.isAlphanumeric c = true := by
    rcases List.mem_cons.mp h with rfl | h
    · simp
    · exact (Ordinal.letters_of_mem_endings h).imp_left .inr
  obtain ⟨rest, hgroups, hdvd⟩ := exists_groups n
  have hne := spellNat_ne_nil (firstGroup n)
  have hdigits : ∀ c ∈ spellNat n, c.isDigit = true := fun c hc => isDigit_of_mem_spellNat hc
  have hascii : ∀ c ∈ spellNat n ++ ending, c.toNat < 0x80 := by
    intro c hc
    rcases List.mem_append.mp hc with hc | hc
    · exact ascii_of_mem_spellNat hc
    · exact (hletters c hc).1
  have hnumber : ofPhrase (spellNat n ++ ending) = ofNumber (spellNat n ++ ending) := by
    obtain ⟨first, later, hfirst⟩ := List.exists_cons_of_ne_nil (spellNat_ne_nil n)
    rw [hfirst] at hdigits ⊢
    refine ofPhrase_number (hdigits first List.mem_cons_self) fun c hc => ?_
    rcases List.mem_append.mp hc with hc | hc
    · exact isAlphanumeric_of_isDigit (hdigits c (List.mem_cons_of_mem first hc))
    · exact (hletters c hc).2
  rw [hgroups] at hascii
  rw [hnumber, hgroups]
  refine ofNumber_groups hne hdvd (fun hteen => ?_) hascii
  have hpos := List.length_pos_iff.mpr hne
  omega

/-- The article of a number with one group of digits. -/
theorem ofNumber_group {group : Nat} (h : group < 1000) :
    ofNumber (spellNat group) = anIf (SpokenWithVowel group) := by
  rw [ofNumber_ascii fun c hc => ascii_of_mem_spellNat hc]
  by_cases hsmall : group < 100
  · have hall : ∀ group < 100, byLeadingDigits (spellNat group) = anIf (SpokenWithVowel group) := by
      decide +kernel
    exact hall group hsmall
  have hvowel := spokenWithVowel_hundreds (Nat.le_of_not_lt hsmall) h
  have height := (digitChar_beq (d := group / 100) (by omega)).1
  rw [spellNat_hundreds (Nat.le_of_not_lt hsmall) h, byLeadingDigits]
  simp [hvowel, height]

theorem anIf_inj {p q : Bool} : anIf p = anIf q ↔ p = q := by
  cases p <;> cases q <;> decide

/-- The article of the ordinal of such a number. -/
theorem ofNumber_ordinal {group : Nat} (h : group < 1000) {ending : List Char}
    (hending : ending ∈ Ordinal.endings) :
    ofNumber (spellNat group ++ ending) = anIf (SpokenWithVowel group) ↔
      ¬MistakenAsOrdinal group := by
  have hletters := Ordinal.letters_of_mem_endings hending
  have hascii : ∀ c ∈ spellNat group ++ ending, c.toNat < 0x80 := fun c hc =>
    (List.mem_append.mp hc).elim ascii_of_mem_spellNat fun hc => (hletters.2 c hc).1
  rw [ofNumber_ascii hascii]
  by_cases hsmall : group < 100
  · have hall : ∀ group < 100, ∀ ending ∈ Ordinal.endings,
        (byLeadingDigits (spellNat group ++ ending) = anIf (SpokenWithVowel group) ↔
          ¬MistakenAsOrdinal group) := by
      decide +kernel
    exact hall group hsmall ending hending
  obtain ⟨height, hone⟩ := digitChar_beq (d := group / 100) (by omega)
  obtain ⟨heighteen, heleven⟩ := digitChar_beq (d := group / 10 % 10) (by omega)
  rw [spellNat_hundreds (Nat.le_of_not_lt hsmall) h, List.cons_append, List.cons_append,
    byLeadingDigits_teen _ _ (by simp [hletters.1]), anIf_inj, height, hone, heighteen, heleven]
  have hvowel := spokenWithVowel_hundreds (Nat.le_of_not_lt hsmall) h
  have hmistaken : MistakenAsOrdinal group ↔
      group / 100 = 1 ∧ (group / 10 % 10 = 1 ∨ group / 10 % 10 = 8) := by
    unfold MistakenAsOrdinal
    omega
  rw [hmistaken, Bool.eq_iff_iff]
  simp only [Bool.or_eq_true, Bool.and_eq_true, decide_eq_true_eq, hvowel]
  omega

end Article

/-! ## The law -/

/-- The article before a number in digits is "an" exactly when the first group of the digits is
spoken with a vowel at the start. The article before the ordinal is the same, unless the letters of
the ending hide an eleven or eighteen, or make one of a group of three digits. -/
theorem articles_of_numbers_go_by_their_first_group (n : Nat) :
    let english := Inflector.english
    (∃ rest, spellNat n = spellNat (firstGroup n) ++ rest ∧ 3 ∣ rest.length ∧
      firstGroup n < 1000) ∧
    (english.article (spellNat n) = .an ↔ SpokenWithVowel (firstGroup n)) ∧
    (english.article (english.ordinal (spellNat n)) = english.article (spellNat n) ↔
      ¬MistakenAsOrdinal (firstGroup n)) := by
  obtain ⟨rest, hgroups, hdvd⟩ := exists_groups n
  have hsmall := firstGroup_lt n
  have hcardinal : Article.ofPhrase (spellNat n) = .anIf (SpokenWithVowel (firstGroup n)) := by
    have hplain := Article.ofPhrase_spellNat n (List.mem_cons_self (a := []))
    rw [List.append_nil, List.append_nil] at hplain
    rw [hplain, Article.ofNumber_group hsmall]
  have hending := Ordinal.ending_mem (spellNat n).reverse
  have hordinal : Article.ofPhrase (Ordinal.ofText (spellNat n)) =
      Article.ofNumber (spellNat (firstGroup n) ++ Ordinal.ending (spellNat n).reverse) := by
    rw [Ordinal.ofText_spellNat, Article.ofPhrase_spellNat n (List.mem_cons_of_mem _ hending)]
  refine ⟨⟨rest, hgroups, hdvd, hsmall⟩, ?_, ?_⟩
  · change Article.ofPhrase (spellNat n) = .an ↔ _
    rw [hcardinal]
    simp [Article.anIf]
  · change Article.ofPhrase (Ordinal.ofText (spellNat n)) = Article.ofPhrase (spellNat n) ↔ _
    rw [hordinal, hcardinal, Article.ofNumber_ordinal hsmall hending]

/-- Eleven takes "an" and its ordinal "a": there are four characters in this, not two. -/
theorem eleventh_takes_a :
    Inflector.english.ordinal (spellNat 11) = "11th".toList ∧
    Inflector.english.article "11th".toList = .a ∧ firstGroup 11 = 11 ∧
    ¬(Inflector.english.article (Inflector.english.ordinal (spellNat 11)) = .an ↔
      SpokenWithVowel (firstGroup 11)) := by
  have hgroup : firstGroup 11 = 11 := by
    rw [firstGroup, if_pos (by decide)]
  rw [hgroup]
  decide +kernel

end TextGrammar
