-- The small parts of the object notation, written and read again: quoted text, numbers and names.
-- Each is read whole whatever follows it, as long as what follows cannot be a part of it.
import TextGrammar.Proofs.Numerals
import TextGrammar.Proofs.WrittenDoubles

namespace TextGrammar

namespace Ron

/-! ## Escapes -/

theorem hexValue?_digitChar {n : Nat} (h : n < 16) : hexValue? n.digitChar = some n := by
  have hall : ∀ k < 16, hexValue? (Nat.digitChar k) = some k := by decide
  exact hall n h

theorem hexNumber?_append (cs : List Char) (c : Char) :
    hexNumber? (cs ++ [c]) =
      (hexNumber? cs).bind fun value => (hexValue? c).map (16 * value + ·) := by
  unfold hexNumber?
  rw [List.foldlM_append]
  simp only [List.foldlM_cons, List.foldlM_nil, bind_pure]
  rfl

theorem hexNumber?_toDigits (n : Nat) : hexNumber? (Nat.toDigits 16 n) = some n := by
  induction n using Nat.strongRecOn with
  | ind n ih =>
    by_cases h : n < 16
    · rw [Nat.toDigits_of_lt_base h]
      have hdigit : hexNumber? [n.digitChar] = _ := hexNumber?_append [] n.digitChar
      rw [hdigit, hexValue?_digitChar h]
      exact congrArg some (Nat.zero_add n)
    · have hlt : n / 16 < n := Nat.div_lt_self (by omega) (by decide)
      rw [Nat.toDigits_of_base_le (by decide) (by omega), hexNumber?_append, ih _ hlt,
        hexValue?_digitChar (Nat.mod_lt _ (by decide))]
      exact congrArg some (Nat.div_add_mod n 16)

theorem ne_brace_of_mem_toDigits {n : Nat} {c : Char} (h : c ∈ Nat.toDigits 16 n) :
    c ≠ '\x7d' := by
  induction n using Nat.strongRecOn with
  | ind n ih =>
    have hdigit : ∀ k < 16, Nat.digitChar k ≠ '\x7d' := by decide
    by_cases hn : n < 16
    · rw [Nat.toDigits_of_lt_base hn, List.mem_singleton] at h
      exact h ▸ hdigit n hn
    · rw [Nat.toDigits_of_base_le (by decide) (by omega), List.mem_append, List.mem_singleton] at h
      rcases h with h | h
      · exact ih _ (Nat.div_lt_self (by omega) (by decide)) h
      · exact h ▸ hdigit _ (Nat.mod_lt _ (by decide))

/-- No code point has more than six hexadecimal digits. -/
theorem length_toDigits_char (c : Char) : (Nat.toDigits 16 c.toNat).length ≤ 6 := by
  rw [Nat.length_toDigits_le_iff (by decide) (by decide)]
  have hvalid := c.valid
  have hnat : c.toNat = c.val.toNat := rfl
  rcases hvalid with h | ⟨_, h⟩ <;> omega

theorem charOf?_toNat (c : Char) : charOf? c.toNat = some c := by
  have hvalid : c.toNat.isValidChar := c.valid
  rw [charOf?, if_pos hvalid, Char.ofNat_toNat]

theorem readEscape_code (c : Char) (cs : List Char) :
    readEscape ('u' :: '\x7b' :: (Nat.toDigits 16 c.toNat ++ '\x7d' :: cs)) =
      some (c, (Nat.toDigits 16 c.toNat).length + 3) := by
  have htake : (Nat.toDigits 16 c.toNat ++ '\x7d' :: cs).takeWhile (· != '\x7d') =
      Nat.toDigits 16 c.toNat := by
    rw [List.takeWhile_append_of_pos fun d hd => by simpa using ne_brace_of_mem_toDigits hd]
    simp
  have hlength := length_toDigits_char c
  have hne : Nat.toDigits 16 c.toNat ≠ [] := Nat.toDigits_ne_nil
  unfold readEscape
  simp only [htake, hexNumber?_toDigits, Option.bind_some, charOf?_toNat]
  rw [if_neg]
  · rfl
  · simp only [Bool.or_eq_true, List.isEmpty_iff, decide_eq_true_eq, beq_iff_eq, not_or,
      List.length_append, List.length_cons]
    exact ⟨⟨hne, by omega⟩, by omega⟩

/-! ## Quoted text -/

theorem readQuoted_escape {c : Char} {cs rest : List Char} {length : Nat}
    (h : readEscape cs = some (c, length)) (hdrop : cs.drop length = rest) :
    readQuoted ('\\' :: cs) = (readQuoted rest).map fun (text, after) => (c :: text, after) := by
  rw [readQuoted, if_neg (by decide), if_pos rfl, h]
  simp only [Option.bind_eq_bind, Option.bind_some, hdrop]
  cases readQuoted rest <;> rfl

/-- A character reads back as itself, before the rest of the string. -/
theorem readQuoted_escapeChar (c : Char) (cs : List Char) :
    readQuoted (escapeChar c ++ cs) =
      (readQuoted cs).map fun (text, after) => (c :: text, after) := by
  unfold escapeChar
  split_ifs with hnull htab hreturn hfeed hquote hcode
  · exact hnull ▸ readQuoted_escape rfl rfl
  · exact htab ▸ readQuoted_escape rfl rfl
  · exact hreturn ▸ readQuoted_escape rfl rfl
  · exact hfeed ▸ readQuoted_escape rfl rfl
  · simp only [Bool.or_eq_true, decide_eq_true_eq] at hquote
    rcases hquote with (rfl | rfl) | rfl <;> exact readQuoted_escape rfl rfl
  · rw [codeEscape, List.append_assoc]
    refine readQuoted_escape (readEscape_code c cs) ?_
    simp
  · simp only [Bool.or_eq_true, decide_eq_true_eq, not_or] at hquote
    rw [List.singleton_append, readQuoted, if_neg hquote.1.2, if_neg hquote.2]
    cases readQuoted cs <;> rfl

theorem readQuoted_flatMap (text rest : List Char) :
    readQuoted (text.flatMap escapeChar ++ '"' :: rest) = some (text, rest) := by
  induction text with
  | nil =>
    rw [List.flatMap_nil, List.nil_append, readQuoted, if_pos rfl]
  | cons c text ih =>
    rw [List.flatMap_cons, List.append_assoc, readQuoted_escapeChar, ih]
    rfl

/-- A string reads back. -/
theorem readString_writeString (text rest : List Char) :
    readString (writeString text ++ rest) = some (text, rest) := by
  rw [writeString, List.cons_append, List.cons_append, List.append_assoc]
  exact readQuoted_flatMap text rest

/-- A character reads back. -/
theorem readChar_writeChar (c : Char) (rest : List Char) :
    readChar (writeChar c ++ rest) = some (c, rest) := by
  unfold writeChar
  split_ifs with hquote
  · simp only [Bool.or_eq_true, decide_eq_true_eq] at hquote
    rcases hquote with rfl | rfl <;> rfl
  · simp only [Bool.or_eq_true, decide_eq_true_eq, not_or] at hquote
    simp [readChar, hquote.1, hquote.2]

/-! ## Where a value ends -/

/-- A value ends before this text: at a comma, at a closing parenthesis, or with the whole text. -/
def Ends (rest : List Char) : Prop := ∀ c ∈ rest.head?, c = ',' ∨ c = ')'

theorem ends_comma (cs : List Char) : Ends (',' :: cs) := by
  rintro c ⟨⟩
  exact Or.inl rfl

theorem ends_close (cs : List Char) : Ends (')' :: cs) := by
  rintro c ⟨⟩
  exact Or.inr rfl

theorem ends_nil : Ends [] := by
  rintro c ⟨⟩

variable {rest : List Char}

/-- A run of characters ends where the value does. -/
theorem takeWhile_ends {p : Char → Bool} (hcomma : p ',' = false) (hclose : p ')' = false)
    {cs : List Char} (hall : ∀ c ∈ cs, p c = true) (h : Ends rest) :
    (cs ++ rest).takeWhile p = cs := by
  rw [List.takeWhile_append_of_pos hall]
  cases rest with
  | nil => exact List.append_nil cs
  | cons c rest =>
    have hc : p c = false := by
      rcases h c rfl with rfl | rfl
      · exact hcomma
      · exact hclose
    simp [hc]

theorem Ends.head?_any {p : Char → Bool} (hcomma : p ',' = false) (hclose : p ')' = false)
    (h : Ends rest) : rest.head?.any p = false := by
  cases rest with
  | nil => rfl
  | cons c rest =>
    rcases h c rfl with rfl | rfl
    · exact hcomma
    · exact hclose

/-! ## Numbers -/

theorem hexValue?_of_isDigit {c : Char} (h : c.isDigit = true) :
    hexValue? c = some (digitValue c) := if_pos h

theorem numberIn?_digits {cs : List Char} (h : ∀ c ∈ cs, c.isDigit = true) :
    numberIn? 10 cs = some (spelledNat cs) := by
  -- Digits hold no underscores.
  have hfilter : cs.filter (· != '_') = cs := by
    rw [List.filter_eq_self]
    intro c hc
    rw [bne_iff_ne]
    rintro rfl
    exact absurd (h _ hc) (by decide)
  unfold numberIn? spelledNat
  rw [hfilter]
  clear hfilter
  generalize 0 = value
  induction cs generalizing value with
  | nil => rfl
  | cons c cs ih =>
    have hdigit := h c List.mem_cons_self
    have hless : digitValue c < 10 := by
      have hnat := toNat_of_isDigit hdigit
      have hzero : '0'.toNat = 48 := rfl
      unfold digitValue
      omega
    rw [List.foldlM_cons, List.foldl_cons, hexValue?_of_isDigit hdigit]
    simp only [Option.bind_eq_bind, Option.bind_some, if_pos hless]
    exact ih (fun d hd => h d (List.mem_cons_of_mem _ hd)) _

theorem readDigits_spellNat (n : Nat) (h : Ends rest) :
    readDigits 10 (spellNat n ++ rest) = some (n, rest) := by
  have hdigits : ∀ c ∈ spellNat n, isDigitChar c = true := by
    intro c hc
    rw [isDigitChar, hexValue?_of_isDigit (isDigit_of_mem_spellNat hc)]
    rfl
  have htake : (spellNat n ++ rest).takeWhile isDigitChar = spellNat n :=
    takeWhile_ends (by decide) (by decide) hdigits h
  unfold readDigits
  dsimp only
  rw [htake, if_neg, numberIn?_digits fun c hc => isDigit_of_mem_spellNat hc, List.drop_left,
    spelledNat_spellNat]
  · rfl
  · rw [Bool.or_eq_true, List.isEmpty_iff, beq_iff_eq, not_or]
    refine ⟨spellNat_ne_nil n, fun hhead => ?_⟩
    have hmem := isDigit_of_mem_spellNat (List.mem_of_mem_head? hhead)
    exact absurd hmem (by decide)

/-- The first character of a number is a digit. -/
theorem isDigit_of_spellNat_append {n : Nat} {c : Char} {cs : List Char}
    (h : spellNat n ++ rest = c :: cs) : c.isDigit = true := by
  obtain ⟨d, ds, hspell⟩ := List.exists_cons_of_ne_nil (spellNat_ne_nil n)
  rw [hspell, List.cons_append, List.cons.injEq] at h
  refine isDigit_of_mem_spellNat (n := n) ?_
  rw [hspell, h.1]
  exact List.mem_cons_self

/-- The second character is a digit, or the value ends before it. -/
theorem second_of_spellNat_append {n : Nat} {c d : Char} {cs : List Char}
    (hends : Ends rest) (h : spellNat n ++ rest = c :: d :: cs) :
    d.isDigit = true ∨ d = ',' ∨ d = ')' := by
  obtain ⟨first, ds, hspell⟩ := List.exists_cons_of_ne_nil (spellNat_ne_nil n)
  rw [hspell, List.cons_append, List.cons.injEq] at h
  cases ds with
  | nil =>
    obtain rfl : rest = d :: cs := h.2
    exact Or.inr (hends d rfl)
  | cons second ds =>
    rw [List.cons_append, List.cons.injEq] at h
    left
    refine isDigit_of_mem_spellNat (n := n) ?_
    rw [hspell, ← h.2.1]
    exact List.mem_cons_of_mem _ List.mem_cons_self

/-- No digits are taken for the mark of a base. -/
theorem readNatural_spellNat (n : Nat) (h : Ends rest) :
    readNatural (spellNat n ++ rest) = some (n, rest) := by
  unfold readNatural
  split
  · rename_i heq
    rcases second_of_spellNat_append h heq with h | h | h <;> exact absurd h (by decide)
  · rename_i heq
    rcases second_of_spellNat_append h heq with h | h | h <;> exact absurd h (by decide)
  · rename_i heq
    rcases second_of_spellNat_append h heq with h | h | h <;> exact absurd h (by decide)
  · exact readDigits_spellNat n h

/-- A whole number without a sign reads back, when it fits into 64 bits. -/
theorem readWord_spellInt {n : Nat} (hn : n < UInt64.size) (h : Ends rest) :
    readWord (spellInt n ++ rest) = some (n, rest) := by
  have hspell : spellInt n = spellNat n := if_neg (by omega)
  rw [hspell, readWord, readNatural_spellNat n h]
  exact Option.filter_some_pos (by simpa using hn)

theorem readInteger_spellInt (n : Int) (h : Ends rest) :
    readInteger (spellInt n ++ rest) = some (n, rest) := by
  unfold spellInt
  split
  · have habs : -(n.natAbs : Int) = n := by omega
    rw [List.cons_append, readInteger, readNatural_spellNat _ h, Option.map_some]
    dsimp only
    rw [habs]
  · have habs : (n.natAbs : Int) = n := by omega
    unfold readInteger
    split
    · rename_i heq
      exact absurd (isDigit_of_spellNat_append heq) (by decide)
    · rename_i heq
      exact absurd (isDigit_of_spellNat_append heq) (by decide)
    · rw [readNatural_spellNat _ h, Option.map_some]
      dsimp only
      rw [habs]

/-- A whole number with a sign reads back. -/
theorem readSigned_spellInt (n : Int64) (h : Ends rest) :
    readSigned (spellInt n.toInt ++ rest) = some (n, rest) := by
  rw [readSigned, readInteger_spellInt _ h, Option.bind_eq_bind, Option.bind_some]
  dsimp only
  rw [if_pos ⟨n.minValue_le_toInt, n.toInt_le⟩, Int64.ofInt_toInt]

/-! ## Doubles -/

theorem exists_cons_of_isDecimal {cs : List Char} (h : isDecimal cs = true) :
    ∃ c ds, cs = c :: ds ∧ (c.isDigit = true ∨ c = '.') := by
  cases cs with
  | nil => exact absurd h (by decide)
  | cons c ds => exact ⟨c, ds, rfl, mem_of_isDecimal h List.mem_cons_self⟩

/-- No number is taken for the name of a double. -/
theorem readFloatName_decimal {cs : List Char} (h : isDecimal cs = true) (rest : List Char) :
    readFloatName (cs ++ rest) = none := by
  obtain ⟨c, ds, rfl, hc⟩ := exists_cons_of_isDecimal h
  have hne : c ≠ 'i' ∧ c ≠ '+' ∧ c ≠ '-' ∧ c ≠ 'N' := by
    refine ⟨?_, ?_, ?_, ?_⟩ <;> rintro rfl <;> exact absurd hc (by decide)
  obtain ⟨hi, hplus, hminus, hN⟩ := hne
  simp [readFloatName, floatNames, dropName?, dropWord?, hi.symm, hplus.symm, hminus.symm, hN.symm]

theorem readFloatName_negative {cs : List Char} (h : isDecimal cs = true) (rest : List Char) :
    readFloatName ('-' :: cs ++ rest) = none := by
  obtain ⟨c, ds, rfl, hc⟩ := exists_cons_of_isDecimal h
  have hne : c ≠ 'i' ∧ c ≠ 'N' := by
    refine ⟨?_, ?_⟩ <;> rintro rfl <;> exact absurd hc (by decide)
  obtain ⟨hi, hN⟩ := hne
  simp [readFloatName, floatNames, dropName?, dropWord?, hi.symm, hN.symm]

theorem readFloatName_infinite (negative : Bool) (h : Ends rest) :
    readFloatName (writeFloat (.infinite negative) ++ rest) = some (.infinite negative, rest) := by
  have hname := h.head?_any (p := isNameChar) (by decide) (by decide)
  cases negative <;>
    simp [readFloatName, floatNames, dropName?, dropWord?, writeFloat, Double.toText, hname]

theorem readFloatName_nan (h : Ends rest) :
    readFloatName (writeFloat .nan ++ rest) = some (.nan, rest) := by
  have hname := h.head?_any (p := isNameChar) (by decide) (by decide)
  simp [readFloatName, floatNames, dropName?, dropWord?, writeFloat, Double.toText, hname]

theorem isFloatChar_of_mem_writeFloat {negative : Bool} {m : Magnitude} {c : Char}
    (h : c ∈ writeFloat (.finite negative m)) : isFloatChar c = true := by
  rw [writeFloat_finite, List.mem_append] at h
  rcases h with h | h
  · split at h
    · rw [List.mem_singleton.mp h]
      decide
    · exact absurd h List.not_mem_nil
  · rcases mem_of_isDecimal (isDecimal_writeFloat m) h with hdigit | rfl
    · simp [isFloatChar, hdigit]
    · decide

/-- A double reads back. -/
theorem readFloat_writeFloat (x : Double) (h : Ends rest) :
    readFloat (writeFloat x ++ rest) = some (x, rest) := by
  cases x with
  | nan => rw [readFloat, readFloatName_nan h, Option.some_or]
  | infinite negative => rw [readFloat, readFloatName_infinite negative h, Option.some_or]
  | finite negative m =>
    have hname : readFloatName (writeFloat (.finite negative m) ++ rest) = none := by
      rw [writeFloat_finite]
      cases negative with
      | true => exact readFloatName_negative (isDecimal_writeFloat m) rest
      | false => exact readFloatName_decimal (isDecimal_writeFloat m) rest
    have htake : (writeFloat (.finite negative m) ++ rest).takeWhile isFloatChar =
        writeFloat (.finite negative m) :=
      takeWhile_ends (by decide) (by decide) (fun _ hc => isFloatChar_of_mem_writeFloat hc) h
    rw [readFloat, hname, Option.none_or]
    dsimp only
    rw [htake, List.drop_left, read?_writeFloat, if_neg]
    · rfl
    · intro hunder
      exact absurd (h '_' (eq_of_beq hunder)) (by decide)

/-! ## Names -/

/-- A name that needs no mark of a raw name. The letter `r` alone could be one. -/
def isPlainName (name : List Char) : Bool :=
  name.head?.any startsName && name.all isNameChar && name != ['r']

/-- A name reads back before anything that does not go on with it. -/
theorem readName_append {name : List Char} (hname : isPlainName name = true)
    (h : rest.head?.any isRawNameChar = false) : readName (name ++ rest) = some (name, rest) := by
  unfold isPlainName at hname
  simp only [Bool.and_eq_true, List.all_eq_true, bne_iff_ne] at hname
  obtain ⟨⟨hstarts, hall⟩, hne⟩ := hname
  obtain ⟨c, cs, rfl⟩ : ∃ c cs, name = c :: cs := by
    cases name with
    | nil => exact absurd hstarts (by decide)
    | cons c cs => exact ⟨c, cs, rfl⟩
  have hword : ∀ d ∈ rest.head?, isNameChar d = false := by
    intro d hd
    rw [Option.mem_def] at hd
    rw [hd, Option.any_some, isRawNameChar, Bool.or_assoc, Bool.or_assoc, Bool.or_eq_false_iff] at h
    exact h.1
  have htake : (c :: cs ++ rest).takeWhile isNameChar = c :: cs := by
    rw [List.takeWhile_append_of_pos hall]
    cases rest with
    | nil => exact List.append_nil _
    | cons d rest => simp [hword d rfl]
  -- A quote or a hash behind the letter `r` would be the second character of the name.
  have hsecond : c = 'r' → ∃ d ds, cs = d :: ds ∧ isNameChar d = true := by
    rintro rfl
    cases cs with
    | nil => exact absurd rfl hne
    | cons d ds => exact ⟨d, ds, rfl, hall d (by simp)⟩
  unfold readName
  split
  · rename_i heq
    rw [List.cons_append, List.cons.injEq] at heq
    obtain ⟨d, ds, rfl, _⟩ := hsecond heq.1
    exact absurd heq.2 (List.cons_ne_nil _ _)
  · rename_i heq
    rw [List.cons_append, List.cons.injEq] at heq
    obtain ⟨d, ds, rfl, hd⟩ := hsecond heq.1
    rw [List.cons_append, List.cons.injEq] at heq
    exact absurd hd (by rw [heq.2.1]; decide)
  · rename_i heq
    rw [List.cons_append, List.cons.injEq] at heq
    obtain ⟨d, ds, rfl, hd⟩ := hsecond heq.1
    rw [List.cons_append, List.cons.injEq] at heq
    exact absurd hd (by rw [heq.2.1]; decide)
  · dsimp only
    rw [htake, List.drop_left, h]
    simpa using hstarts

end Ron

end TextGrammar
