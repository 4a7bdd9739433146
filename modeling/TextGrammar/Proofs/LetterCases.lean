-- Letter cases: what the case maps do to single characters. No character is lost, and no mark
-- that is no letter comes of a change of case.
import TextGrammar.Unicode.Alphabetic
import TextGrammar.Unicode.FinalSigma

namespace TextGrammar

open Unicode

section

variable {p : Char → Prop} [DecidablePred p] (cs : List Char)

-- What holds of the characters of a list is decided by going over the list. Without these, a search
-- over every character there is comes first.
instance (priority := high) decidableForallMemChars : Decidable (∀ c ∈ cs, p c) :=
  List.decidableBAll p cs

instance (priority := high) decidableExistsMemChars : Decidable (∃ c ∈ cs, p c) :=
  List.decidableBEx p cs

end

/-! ## The tables -/

/-- No code point that the tables lead to is `code`. -/
def Misses (expansions : List (Nat × List Nat)) (steps : List (Stretch × Int)) (code : Nat) :
    Prop :=
  (∀ entry ∈ expansions, code ∉ entry.2) ∧
    ∀ entry ∈ steps, (code : Int) < entry.1.first + entry.2 ∨ entry.1.last + entry.2 < code

instance (expansions : List (Nat × List Nat)) (steps : List (Stretch × Int)) (code : Nat) :
    Decidable (Misses expansions steps code) :=
  inferInstanceAs (Decidable (_ ∧ _))

section

variable {expansions : List (Nat × List Nat)} {steps : List (Stretch × Int)} {c d : Char}

/-- What a code point that is not zero makes has this code point. -/
theorem eq_toNat_of_ofNat {code : Nat} (h : Char.ofNat code = c) (hc : c ≠ '\x00') :
    code = c.toNat := by
  by_cases hvalid : code.isValidChar
  · have hof : Char.ofNat code = Char.ofNatAux code hvalid := dif_pos hvalid
    rw [← h, hof]
    rfl
  · have hof : Char.ofNat code = '\x00' := dif_neg hvalid
    exact absurd (h.symm.trans hof) hc

/-- A character comes of a case map as itself, of an expansion or of a step. -/
theorem mem_mapCase (h : d ∈ mapCase expansions steps c) :
    d = c ∨ (∃ entry ∈ expansions, ∃ code ∈ entry.2, Char.ofNat code = d) ∨
      ∃ entry ∈ steps, entry.1.first ≤ c.toNat ∧ c.toNat ≤ entry.1.last ∧
        Char.ofNat (c.toNat + entry.2).toNat = d := by
  unfold mapCase at h
  split at h
  · rename_i codes hcodes
    obtain ⟨code, hcode, rfl⟩ := List.mem_map.mp h
    obtain ⟨before, after, rfl, _⟩ := List.lookup_eq_some_iff.mp hcodes
    exact .inr (.inl ⟨_, List.mem_append_right _ List.mem_cons_self, code, hcode, rfl⟩)
  · split at h
    · rename_i stretch step hstep
      have hholds := List.find?_some hstep
      simp only [Stretch.holds, Bool.and_eq_true, decide_eq_true_eq] at hholds
      exact .inr (.inr ⟨_, List.mem_of_find?_eq_some hstep, hholds.1.1, hholds.1.2,
        (List.mem_singleton.mp h).symm⟩)
    · exact .inl (List.mem_singleton.mp h)

/-- A mark that the tables do not lead to comes of itself alone. -/
theorem eq_of_mem_mapCase (hmisses : Misses expansions steps d.toNat) (hd : d ≠ '\x00')
    (h : d ∈ mapCase expansions steps c) : d = c := by
  obtain rfl | ⟨entry, hentry, code, hcode, hmade⟩ | ⟨entry, hentry, hfirst, hlast, hmade⟩ :=
    mem_mapCase h
  · rfl
  · exact absurd (eq_toNat_of_ofNat hmade hd ▸ hcode) (hmisses.1 entry hentry)
  · have hcode := eq_toNat_of_ofNat hmade hd
    have hpositive : d.toNat ≠ 0 := fun hzero => hd (Char.toNat_inj.mp hzero)
    have hapart := hmisses.2 entry hentry
    omega

theorem mapCase_ne_nil (h : ∀ entry ∈ expansions, entry.2 ≠ []) :
    mapCase expansions steps c ≠ [] := by
  unfold mapCase
  split
  · rename_i codes hcodes
    obtain ⟨before, after, rfl, _⟩ := List.lookup_eq_some_iff.mp hcodes
    simpa using h _ (List.mem_append_right _ List.mem_cons_self)
  · split <;> simp

end

/-! ## Single characters -/

/-- What is checked of each ASCII character holds of all of them. -/
theorem forall_ascii {P : Char → Prop} (h : ∀ n < 0x80, P (Char.ofNat n)) {c : Char}
    (hc : c.toNat < 0x80) : P c := by
  have hn := h c.toNat hc
  rwa [Char.ofNat_toNat] at hn

theorem lowerChar_ne_nil (c : Char) : lowerChar c ≠ [] := by
  unfold lowerChar
  split
  · simp
  · exact mapCase_ne_nil (by decide)

theorem upperChar_ne_nil (c : Char) : upperChar c ≠ [] := by
  unfold upperChar
  split
  · simp
  · exact mapCase_ne_nil (by decide +kernel)

/-- The marks that stand around the letter of a marker. -/
def parens : List Char := ['(', ')']

theorem toLower_of_not_ascii {c : Char} (h : ¬c.toNat < 0x80) : c.toLower = c := by
  refine dif_neg ?_
  rintro ⟨_, hle⟩
  exact h (Nat.lt_of_le_of_lt (UInt32.le_iff_toNat_le.mp hle) (by decide))

/-- A parenthesis is the small letter of no other ASCII character. -/
theorem eq_of_toLower {c mark : Char} (h : c.toLower = mark) (hmark : mark ∈ parens) :
    c = mark := by
  by_cases hascii : c.toNat < 0x80
  · have hlower : ∀ n < 0x80, (Char.ofNat n).toLower ∈ parens →
        Char.ofNat n = (Char.ofNat n).toLower := by decide
    have hc := forall_ascii (P := fun c => c.toLower ∈ parens → c = c.toLower) hlower hascii
    exact (hc (h ▸ hmark)).trans h
  · rwa [toLower_of_not_ascii hascii] at h

/-- What is checked of the ASCII characters that a case map takes to some marks, and of these marks
themselves, holds of all that it takes to them, if the tables do not lead there. -/
theorem of_mem_charMap {P : Char → Prop} {single : Char → Char} {expansions : List (Nat × List Nat)}
    {steps : List (Stretch × Int)} {marks : List Char}
    (hascii : ∀ n < 0x80, single (Char.ofNat n) ∈ marks → P (Char.ofNat n))
    (hmarks : ∀ mark ∈ marks, Misses expansions steps mark.toNat ∧ mark ≠ '\x00' ∧ P mark)
    {c d : Char} (h : d ∈ if c.toNat < 0x80 then [single c] else mapCase expansions steps c)
    (hd : d ∈ marks) : P c := by
  split at h
  · rename_i hcode
    rw [List.mem_singleton.mp h] at hd
    exact forall_ascii (P := fun c => single c ∈ marks → P c) hascii hcode hd
  · obtain ⟨hmisses, hzero, hmark⟩ := hmarks d hd
    exact eq_of_mem_mapCase hmisses hzero h ▸ hmark

/-- A parenthesis is the lower case of itself alone. -/
theorem mem_parens_of_lowerChar {c d : Char} (h : d ∈ lowerChar c) (hd : d ∈ parens) :
    c ∈ parens :=
  of_mem_charMap (P := (· ∈ parens)) (by decide) (by decide +kernel) h hd

/-- A parenthesis is the upper case of itself alone. -/
theorem mem_parens_of_upperChar {c d : Char} (h : d ∈ upperChar c) (hd : d ∈ parens) :
    c ∈ parens :=
  of_mem_charMap (P := (· ∈ parens)) (by decide) (by decide +kernel) h hd

/-- The small letters "c" and "s" come of letters only. -/
theorem isAlphabetic_of_mem_lowerChar {c d : Char} (h : d ∈ lowerChar c) (hd : d ∈ ['c', 's']) :
    isAlphabetic c = true :=
  of_mem_charMap (P := (isAlphabetic · = true)) (by decide) (by decide +kernel) h hd

/-! ## Texts -/

/-- No parenthesis stands in the text. -/
def ParenFree (text : List Char) : Prop := ∀ c ∈ text, c ∉ parens

namespace ParenFree

variable {a b text : List Char} {c : Char}

theorem append (ha : ParenFree a) (hb : ParenFree b) : ParenFree (a ++ b) := by
  intro c hc
  exact (List.mem_append.mp hc).elim (ha c) (hb c)

theorem tail (h : ParenFree (c :: text)) : ParenFree text := fun d hd =>
  h d (List.mem_cons_of_mem c hd)

theorem map_toLower (h : ParenFree text) : ParenFree (text.map Char.toLower) := by
  intro d hd hmem
  obtain ⟨c, hc, rfl⟩ := List.mem_map.mp hd
  exact h c hc (eq_of_toLower rfl hmem ▸ hmem)

theorem upperChar (h : c ∉ parens) : ParenFree (Unicode.upperChar c) := fun _ hd hmem =>
  h (mem_parens_of_upperChar hd hmem)

theorem upperText (h : ParenFree text) : ParenFree (Unicode.upperText text) := by
  intro d hd
  obtain ⟨c, hc, hd⟩ := List.mem_flatMap.mp hd
  exact ParenFree.upperChar (h c hc) d hd

theorem lowerAfter (before : List Char) (h : ParenFree text) :
    ParenFree (Unicode.lowerAfter before text) := by
  induction text generalizing before with
  | nil => exact h
  | cons c text ih =>
    rw [Unicode.lowerAfter]
    refine ParenFree.append ?_ (ih _ h.tail)
    split
    · have hsigmas : ∀ sigma ∈ ['ς', 'σ'], sigma ∉ parens := by decide
      intro d hd
      refine hsigmas d ?_
      split at hd
      · exact List.mem_cons.mpr (.inl (List.mem_singleton.mp hd))
      · exact List.mem_cons_of_mem _ hd
    · exact fun d hd hmem => h c List.mem_cons_self (mem_parens_of_lowerChar hd hmem)

theorem lowerText (h : ParenFree text) : ParenFree (Unicode.lowerText text) := lowerAfter [] h

end ParenFree

theorem length_le_lowerAfter (before text : List Char) :
    text.length ≤ (lowerAfter before text).length := by
  induction text generalizing before with
  | nil => exact Nat.le_refl _
  | cons c text ih =>
    have hpos : 0 < (if c = capitalSigma then
        [if meetsCased before && !meetsCased text then 'ς' else 'σ'] else lowerChar c).length := by
      split
      · exact Nat.one_pos
      · exact List.length_pos_iff.mpr (lowerChar_ne_nil c)
    have htext := ih (c :: before)
    rw [lowerAfter, List.length_append, List.length_cons]
    omega

theorem length_le_upperText (text : List Char) : text.length ≤ (upperText text).length := by
  induction text with
  | nil => exact Nat.le_refl _
  | cons c text ih =>
    have hpos := List.length_pos_iff.mpr (upperChar_ne_nil c)
    unfold upperText at ih ⊢
    rw [List.flatMap_cons, List.length_append, List.length_cons]
    omega

/-! ## Sigmas -/

/-- The final sigma as the one within a word. -/
def plainSigma (c : Char) : Char := if c = 'ς' then 'σ' else c

/-- The lower case of a character, whose place in a word does not matter. -/
def plainLower (c : Char) : List Char :=
  if c = capitalSigma then ['σ'] else (lowerChar c).map plainSigma

theorem plainSigma_eq_self {c : Char} (h : plainSigma c ≠ 'σ') : plainSigma c = c := by
  unfold plainSigma at h ⊢
  split
  · rename_i hsigma
    exact absurd (if_pos hsigma) h
  · rfl

/-- But for its sigmas, the lower case of a text goes character by character. -/
theorem map_plainSigma_lowerAfter (before text : List Char) :
    (lowerAfter before text).map plainSigma = text.flatMap plainLower := by
  induction text generalizing before with
  | nil => rfl
  | cons c text ih =>
    rw [lowerAfter, List.map_append, ih, List.flatMap_cons, plainLower]
    split
    · congr 1
      split <;> rfl
    · rfl

theorem plainLower_ne_nil (c : Char) : plainLower c ≠ [] := by
  unfold plainLower
  split
  · simp
  · simpa using lowerChar_ne_nil c

theorem isAlphabetic_of_mem_plainLower {c d : Char} (h : d ∈ plainLower c) (hd : d ∈ ['c', 's']) :
    isAlphabetic c = true := by
  have hsigma : 'σ' ∉ ['c', 's'] := by decide
  unfold plainLower at h
  split at h
  · exact absurd (List.mem_singleton.mp h ▸ hd) hsigma
  · obtain ⟨small, hsmall, rfl⟩ := List.mem_map.mp h
    have hsame := plainSigma_eq_self fun heq => hsigma (heq ▸ hd)
    exact isAlphabetic_of_mem_lowerChar hsmall (hsame ▸ hd)

end TextGrammar
