-- The law of the places of faults. Whatever keeps a pattern from being read, the fault is blamed on
-- the character that it is about, however many escapes, brackets and branches stand around that.
-- Reading goes by resolved characters, of which each keeps its column; so a fault is first found
-- among them, and then in the text that they were resolved from.
import TextGrammar.Proofs.Comments
import TextGrammar.Proofs.Defects

namespace TextGrammar

open SourceChar

/-! ## Places in a text -/

/-- Escape characters at the end come in pairs: none is left over to escape what follows. -/
def Settled (text : List Char) : Prop :=
  2 ∣ (text.reverse.takeWhile (· == escapeChar)).length

/-- The text reads as `meant` when its escapes are resolved. -/
def ReadsAs (written : List Char) (meant : String) : Prop :=
  ∃ column chars, resolve column written = .ok chars ∧ SourceChar.text chars = meant

/-- The text starts with something that reads as `meant`. -/
def StartsAs (text : List Char) (meant : String) : Prop :=
  ∃ written rest, text = written ++ rest ∧ ReadsAs written meant

/-- What the text shows of a defect where that is blamed, with `before` in front of the place and
`rest` from there on. -/
def SyntaxDefect.ShownAt (before rest : List Char) : SyntaxDefect → Prop
  | .unbalancedBracket mark | .unclosedQuote mark => rest.head? = some mark
  | .emptyBracket | .nestingTooDeep _ => rest.head? = some '['
  | .malformedWeight _ | .negativeWeight _ => rest.head? = some '^'
  | .unknownEscape letter => ∃ later, rest = escapeChar :: letter :: later
  | .danglingEscape => rest = [escapeChar]
  | .invalidSymbolName text | .invalidRange text | .unexpectedText text => StartsAs rest text
  | .unknownModifier token =>
    (∃ earlier, before = earlier ++ ['.'] ∧ Settled earlier) ∧ StartsAs rest token
  | _ => False

/-- A fault of a text that starts in `start` is blamed on a character of it that is not escaped,
and the text shows the defect there. -/
def Fault.Placed (start : Nat) (text : List Char) (fault : Fault) : Prop :=
  ∃ before rest, text = before ++ rest ∧ rest ≠ [] ∧ fault.column = start + before.length ∧
    Settled before ∧ fault.defect.ShownAt before rest

/-! ## Places among resolved characters -/

/-- The characters start with those of a text. -/
def StartsWith (cs : List SourceChar) (text : String) : Prop :=
  ∃ word rest, cs = word ++ rest ∧ SourceChar.text word = text

theorem startsWith_self (cs : List SourceChar) : StartsWith cs (SourceChar.text cs) :=
  ⟨cs, [], (List.append_nil cs).symm, rfl⟩

theorem StartsWith.append {cs : List SourceChar} {text : String} (h : StartsWith cs text)
    (more : List SourceChar) : StartsWith (cs ++ more) text := by
  obtain ⟨word, rest, rfl, htext⟩ := h
  exact ⟨word, rest ++ more, List.append_assoc _ _ _, htext⟩

/-- A fault of the character `c`, with `after` behind it. A modifier stands in a bracket, which
closes somewhere behind it. -/
inductive FaultAt (c : SourceChar) (after : List SourceChar) : Fault → Prop
  | unbalancedBracket {mark : Char} (isMark : c.is mark = true) :
    FaultAt c after ⟨c.column, .unbalancedBracket mark⟩
  | unclosedQuote {mark : Char} (isMark : c.is mark = true) :
    FaultAt c after ⟨c.column, .unclosedQuote mark⟩
  | emptyBracket (isMark : c.is '[' = true) : FaultAt c after ⟨c.column, .emptyBracket⟩
  | nestingTooDeep {limit : Nat} (isMark : c.is '[' = true) :
    FaultAt c after ⟨c.column, .nestingTooDeep limit⟩
  | malformedWeight {text : String} (isMark : c.is '^' = true) :
    FaultAt c after ⟨c.column, .malformedWeight text⟩
  | negativeWeight {text : String} (isMark : c.is '^' = true) :
    FaultAt c after ⟨c.column, .negativeWeight text⟩
  | invalidSymbolName {text : String} (starts : StartsWith (c :: after) text) :
    FaultAt c after ⟨c.column, .invalidSymbolName text⟩
  | invalidRange {text : String} (starts : StartsWith (c :: after) text) :
    FaultAt c after ⟨c.column, .invalidRange text⟩
  | unexpectedText {text : String} (starts : StartsWith (c :: after) text) :
    FaultAt c after ⟨c.column, .unexpectedText text⟩
  | unknownModifier {token : String} (isPoint : c.is '.' = true)
      (closes : ∃ d ∈ after, d.is ']' = true) (starts : StartsWith after token) :
    FaultAt c after ⟨c.column + 1, .unknownModifier token⟩

theorem FaultAt.append {c : SourceChar} {after : List SourceChar} {fault : Fault}
    (h : FaultAt c after fault) (more : List SourceChar) : FaultAt c (after ++ more) fault := by
  cases h with
  | unbalancedBracket isMark => exact .unbalancedBracket isMark
  | unclosedQuote isMark => exact .unclosedQuote isMark
  | emptyBracket isMark => exact .emptyBracket isMark
  | nestingTooDeep isMark => exact .nestingTooDeep isMark
  | malformedWeight isMark => exact .malformedWeight isMark
  | negativeWeight isMark => exact .negativeWeight isMark
  | invalidSymbolName starts => exact .invalidSymbolName (starts.append more)
  | invalidRange starts => exact .invalidRange (starts.append more)
  | unexpectedText starts => exact .unexpectedText (starts.append more)
  | unknownModifier isPoint closes starts =>
    obtain ⟨d, hd, hclosing⟩ := closes
    exact .unknownModifier isPoint ⟨d, List.mem_append_left more hd, hclosing⟩
      (starts.append more)

/-- The fault is one of the characters. -/
def Blames (cs : List SourceChar) (fault : Fault) : Prop :=
  ∃ before c after, cs = before ++ c :: after ∧ FaultAt c after fault

theorem FaultAt.blames {c : SourceChar} {after : List SourceChar} {fault : Fault}
    (h : FaultAt c after fault) : Blames (c :: after) fault :=
  ⟨[], c, after, rfl, h⟩

/-- A fault of a part is a fault of the whole. -/
theorem Blames.of_part {part whole : List SourceChar} {fault : Fault} (h : Blames part fault)
    (hpart : part <:+: whole) : Blames whole fault := by
  obtain ⟨before, c, after, rfl, hfault⟩ := h
  obtain ⟨front, back, rfl⟩ := hpart
  exact ⟨front ++ before, c, after ++ back, by simp, hfault.append back⟩

theorem Blames.cons {cs : List SourceChar} {fault : Fault} (h : Blames cs fault)
    (c : SourceChar) : Blames (c :: cs) fault :=
  h.of_part (List.suffix_cons c cs).isInfix

/-! ## Scans -/

section

variable {c : SourceChar} {cs : List SourceChar} {fault : Fault} {column : Nat}

/-- A scan fails at the bracket that does not close, or at a quote that does not. -/
theorem blames_closingBracket {scan : BracketScan} {inner : Nat}
    (h : closingBracket column scan inner cs = .error fault) :
    fault = ⟨column, .unbalancedBracket '['⟩ ∨
    (∃ quote, scan = .quoted quote ∧ fault = ⟨quote, .unclosedQuote '\''⟩) ∨ Blames cs fault := by
  fun_induction closingBracket column scan inner cs with
  | case1 inner quote =>
    cases h
    exact Or.inr (Or.inl ⟨quote, rfl, rfl⟩)
  | case2 scan inner hscan =>
    cases h
    exact Or.inl rfl
  | case3 quote inner c cs ih =>
    rcases ih (map_eq_error.mp h) with hfault | ⟨other, hother, hfault⟩ | hfault
    · exact Or.inl hfault
    · split at hother
      · cases hother
      · cases hother
        exact Or.inr (Or.inl ⟨quote, rfl, hfault⟩)
    · exact Or.inr (Or.inr (hfault.cons c))
  | case4 scan inner c cs hscan hopen ih =>
    rcases ih (map_eq_error.mp h) with hfault | ⟨other, hother, _⟩ | hfault
    · exact Or.inl hfault
    · cases hother
    · exact Or.inr (Or.inr (hfault.cons c))
  | case5 => cases h
  | case6 scan c cs hscan hopen hclose inner ih =>
    rcases ih (map_eq_error.mp h) with hfault | ⟨other, hother, _⟩ | hfault
    · exact Or.inl hfault
    · cases hother
    · exact Or.inr (Or.inr (hfault.cons c))
  | case7 scan inner c cs hscan hopen hclose next ih =>
    rcases ih (map_eq_error.mp h) with hfault | ⟨other, hother, rfl⟩ | hfault
    · exact Or.inl hfault
    · -- Quoted text has just opened here.
      obtain ⟨hquote, rfl⟩ : c.is '\'' = true ∧ c.column = other := by
        grind
      exact Or.inr (Or.inr (FaultAt.unclosedQuote hquote).blames)
    · exact Or.inr (Or.inr (hfault.cons c))

theorem blames_interiorLength (hc : c.is '[' = true) (h : interiorLength c cs = .error fault) :
    Blames (c :: cs) fault := by
  rcases blames_closingBracket h with rfl | ⟨_, hscan, _⟩ | hfault
  · exact (FaultAt.unbalancedBracket hc).blames
  · cases hscan
  · exact hfault.cons c

theorem blames_quotedLength (hc : c.is '\'' = true)
    (h : quotedLength c.column cs = .error fault) : Blames (c :: cs) fault := by
  suffices hfault : fault = ⟨c.column, .unclosedQuote '\''⟩ by
    rw [hfault]
    exact (FaultAt.unclosedQuote hc).blames
  induction cs with
  | nil => exact (Except.error.inj h).symm
  | cons d cs ih =>
    unfold quotedLength at h
    split at h
    · cases h
    · exact ih (map_eq_error.mp h)

theorem blames_patternLength (h : patternLength column cs = .error fault) :
    fault = ⟨column, .unclosedQuote '"'⟩ ∨ Blames cs fault := by
  fun_induction patternLength column cs with
  | case1 =>
    cases h
    exact Or.inl rfl
  | case2 => cases h
  | case3 c cs hquote hopen ih =>
    rcases bind_eq_error.mp h with h | ⟨inside, hinside, h⟩
    · exact Or.inr (blames_interiorLength hopen h)
    · rcases bind_eq_error.mp h with h | ⟨_, _, h⟩
      · rcases ih inside h with hfault | hfault
        · exact Or.inl hfault
        · exact Or.inr ((hfault.of_part (List.drop_suffix _ _).isInfix).cons c)
      · cases h
  | case4 c cs hquote hopen ih =>
    rcases ih (map_eq_error.mp h) with hfault | hfault
    · exact Or.inl hfault
    · exact Or.inr (hfault.cons c)

theorem blames_splitBars (h : splitBars cs = .error fault) : Blames cs fault := by
  fun_induction splitBars cs with
  | case1 => cases h
  | case2 c cs hopen ih =>
    rcases bind_eq_error.mp h with h | ⟨inside, hinside, h⟩
    · exact blames_interiorLength hopen h
    · rcases bind_eq_error.mp h with h | ⟨_, _, h⟩
      · exact ((ih inside h).of_part (List.drop_suffix _ _).isInfix).cons c
      · cases h
  | case3 c cs hopen hclose =>
    cases h
    exact (FaultAt.unbalancedBracket hclose).blames
  | case4 c cs hopen hclose hbar ih => exact (ih (map_eq_error.mp h)).cons c
  | case5 c cs hopen hclose hbar ih => exact (ih (map_eq_error.mp h)).cons c

/-- The first part starts the whole, and the others stand somewhere in it. -/
theorem parts_of_splitBars {parts : List (List SourceChar)} (h : splitBars cs = .ok parts) :
    ∃ first others, parts = first :: others ∧ first <+: cs ∧ ∀ part ∈ others, part <:+: cs := by
  fun_induction splitBars cs generalizing parts with
  | case1 =>
    cases h
    exact ⟨[], [], rfl, List.nil_prefix, by simp⟩
  | case2 c cs hopen ih =>
    obtain ⟨inside, hinside, h⟩ := bind_eq_ok.mp h
    obtain ⟨tail, htail, h⟩ := bind_eq_ok.mp h
    cases h
    obtain ⟨first, others, rfl, hfirst, hothers⟩ := ih inside htail
    refine ⟨c :: cs.take (inside + 1) ++ first, others, rfl, ?_, fun part hpart => ?_⟩
    · refine (List.cons_prefix_cons.mpr ⟨rfl, ?_⟩)
      have hwhole := (List.prefix_append_right_inj (cs.take (inside + 1))).mpr hfirst
      rwa [List.take_append_drop] at hwhole
    · have hrest := (hothers part hpart).trans (List.drop_suffix _ _).isInfix
      exact hrest.trans (List.suffix_cons c cs).isInfix
  | case3 => cases h
  | case4 c cs hopen hclose hbar ih =>
    obtain ⟨tail, htail, rfl⟩ := map_eq_ok.mp h
    obtain ⟨first, others, rfl, hfirst, hothers⟩ := ih htail
    refine ⟨[], first :: others, rfl, List.nil_prefix, fun part hpart => ?_⟩
    have hrest : part <:+: cs := by
      rcases List.mem_cons.mp hpart with rfl | hpart
      · exact hfirst.isInfix
      · exact hothers part hpart
    exact hrest.trans (List.suffix_cons c cs).isInfix
  | case5 c cs hopen hclose hbar ih =>
    obtain ⟨tail, htail, rfl⟩ := map_eq_ok.mp h
    obtain ⟨first, others, rfl, hfirst, hothers⟩ := ih htail
    refine ⟨c :: first, others, rfl, List.cons_prefix_cons.mpr ⟨rfl, hfirst⟩, fun part hpart => ?_⟩
    exact (hothers part hpart).trans (List.suffix_cons c cs).isInfix

end

/-! ## Bodies -/

/-- A reader of blocks blames the bracket that it is given, or what stands inside. -/
def ReaderBlames (readBlock : BlockReader) : Prop :=
  ∀ opening interior closing fault, opening.is '[' = true → closing.is ']' = true →
    readBlock opening.column interior = .error fault →
    Blames (opening :: (interior ++ [closing])) fault

section

variable {readBlock : BlockReader} {c first : SourceChar} {cs : List SourceChar} {fault : Fault}

/-- A bracket that closes and cannot be read. -/
theorem ReaderBlames.taken (hread : ReaderBlames readBlock) (hc : c.is '[' = true) {inside : Nat}
    (hinside : interiorLength c cs = .ok inside)
    (h : readBlock c.column (cs.take inside) = .error fault) : Blames (c :: cs) fault := by
  obtain ⟨interior, closing, later, rfl, rfl, hclosing, _⟩ := exists_closed hinside
  rw [List.take_left] at h
  refine (hread c interior closing fault hc hclosing h).of_part (List.IsPrefix.isInfix ?_)
  exact ⟨later, by simp⟩

theorem blames_readWeight (hc : c.is '^' = true) (h : readWeight c.column cs = .error fault) :
    Blames (c :: cs) fault := by
  suffices hfault : FaultAt c cs fault from hfault.blames
  unfold readWeight at h
  dsimp only at h
  split_ifs at h <;> cases h
  · exact .malformedWeight hc
  · exact .negativeWeight hc
  · exact .malformedWeight hc
  · exact .malformedWeight hc

theorem blames_readBody (hread : ReaderBlames readBlock) {weighted : Bool}
    {literal : List SourceChar} (h : readBody readBlock weighted literal cs = .error fault) :
    Blames cs fault := by
  fun_induction readBody readBlock weighted literal cs with
  | case1 => cases h
  | case2 literal c cs hopen ih =>
    rcases bind_eq_error.mp h with h | ⟨inside, hinside, h⟩
    · exact blames_interiorLength hopen h
    rcases bind_eq_error.mp h with h | ⟨block, _, h⟩
    · exact hread.taken hopen hinside h
    rcases bind_eq_error.mp h with h | ⟨body, _, h⟩
    · exact ((ih inside h).of_part (List.drop_suffix _ _).isInfix).cons c
    · cases h
  | case3 literal c cs hopen hclose =>
    cases h
    exact (FaultAt.unbalancedBracket hclose).blames
  | case4 literal c cs hopen hclose hcaret hweighted =>
    rcases bind_eq_error.mp h with h | ⟨weight, _, h⟩
    · exact blames_readWeight hcaret h
    · cases h
  | case5 literal c cs hopen hclose hcaret hunweighted =>
    cases h
    exact (FaultAt.unexpectedText (startsWith_self _)).blames
  | case6 literal c cs hopen hclose hcaret ih => exact (ih h).cons c

/-! ## References -/

/-- The bracket that closes the reference stands behind the modifiers. -/
theorem blames_readModifiers (h : readModifiers cs = .error fault) {more : List SourceChar}
    (hmore : ∃ d ∈ more, d.is ']' = true) : Blames (cs ++ more) fault := by
  fun_induction readModifiers cs with
  | case1 => cases h
  | case2 c cs hpoint token modifier hmodifier ih =>
    have hrest := (List.dropWhile_suffix (l := cs) fun d => !d.is '.').trans (List.suffix_cons c cs)
    obtain ⟨front, hfront⟩ := hrest
    refine (ih (map_eq_error.mp h)).of_part (List.IsSuffix.isInfix ⟨front, ?_⟩)
    rw [← hfront, List.append_assoc]
  | case3 c cs hpoint token hnone =>
    cases h
    refine (FaultAt.unknownModifier hpoint ?_ ?_).blames
    · obtain ⟨d, hd, hclosing⟩ := hmore
      exact ⟨d, List.mem_append_right cs hd, hclosing⟩
    · have hstarts : StartsWith cs token :=
        ⟨_, _, (List.takeWhile_append_dropWhile (p := fun d => !d.is '.')).symm, rfl⟩
      exact hstarts.append more
  | case4 c cs hpoint =>
    cases h
    exact (FaultAt.unexpectedText ((startsWith_self (c :: cs)).append more)).blames

theorem blames_readWord {word rest : List SourceChar} (hword : first :: cs = word ++ rest)
    (h : readWord first.column (SourceChar.plain word) = .error fault) :
    Blames (first :: cs) fault := by
  have hstarts : StartsWith (first :: cs) (String.ofList (SourceChar.plain word)) :=
    ⟨word, rest, hword, rfl⟩
  unfold readWord at h
  split at h
  · cases h
  · cases h
    exact (FaultAt.invalidRange hstarts).blames
  · split at h
    · cases h
    · cases h
      exact (FaultAt.invalidSymbolName hstarts).blames

theorem blames_readTarget (hread : ReaderBlames readBlock)
    (h : readTarget readBlock first cs = .error fault) : Blames (first :: cs) fault := by
  unfold readTarget at h
  split_ifs at h with hopen hquote hpattern
  · rcases bind_eq_error.mp h with h | ⟨inside, hinside, h⟩
    · exact blames_interiorLength hopen h
    rcases bind_eq_error.mp h with h | ⟨inner, _, h⟩
    · exact hread.taken hopen hinside h
    · cases h
  · rcases bind_eq_error.mp h with h | ⟨inside, _, h⟩
    · exact blames_quotedLength hquote h
    · cases h
  · rcases bind_eq_error.mp h with h | ⟨inside, _, h⟩
    · rcases blames_patternLength h with rfl | hfault
      · exact (FaultAt.unclosedQuote hpattern).blames
      · exact hfault.cons first
    rcases bind_eq_error.mp h with h | ⟨body, _, h⟩
    · exact ((blames_readBody hread h).of_part (List.take_prefix _ _).isInfix).cons first
    · cases h
  · rcases bind_eq_error.mp h with h | ⟨target, _, h⟩
    · exact blames_readWord (List.takeWhile_append_dropWhile).symm h
    · cases h

/-- The modifiers are looked for at the end. -/
theorem suffix_of_readTarget {target : Target} {rest : List SourceChar}
    (h : readTarget readBlock first cs = .ok (target, rest)) : rest <:+ first :: cs := by
  have hdrop (n : Nat) : cs.drop n <:+ first :: cs :=
    (List.drop_suffix n cs).trans (List.suffix_cons first cs)
  unfold readTarget at h
  split_ifs at h with hopen hquote hpattern
  · obtain ⟨inside, _, h⟩ := bind_eq_ok.mp h
    obtain ⟨inner, _, h⟩ := bind_eq_ok.mp h
    cases h
    exact hdrop _
  · obtain ⟨inside, _, h⟩ := bind_eq_ok.mp h
    cases h
    exact hdrop _
  · obtain ⟨inside, _, h⟩ := bind_eq_ok.mp h
    obtain ⟨body, _, h⟩ := bind_eq_ok.mp h
    cases h
    exact hdrop _
  · obtain ⟨word, _, h⟩ := bind_eq_ok.mp h
    cases h
    exact List.dropWhile_suffix _

theorem blames_readReference (hread : ReaderBlames readBlock)
    (h : readReference readBlock first cs = .error fault) {more : List SourceChar}
    (hmore : ∃ d ∈ more, d.is ']' = true) : Blames (first :: cs ++ more) fault := by
  rcases bind_eq_error.mp h with h | ⟨⟨target, rest⟩, htarget, h⟩
  · exact (blames_readTarget hread h).of_part (List.prefix_append _ more).isInfix
  rcases bind_eq_error.mp h with h | ⟨modifiers, _, h⟩
  · obtain ⟨front, hfront⟩ := suffix_of_readTarget htarget
    refine (blames_readModifiers h hmore).of_part (List.IsSuffix.isInfix ⟨front, ?_⟩)
    rw [← hfront, List.append_assoc]
  · cases h

/-! ## Brackets -/

theorem exists_of_mapM_eq_error {α β ε : Type} {f : α → Except ε β} {xs : List α} {error : ε}
    (h : xs.mapM f = .error error) : ∃ x ∈ xs, f x = .error error := by
  induction xs with
  | nil => cases h
  | cons x xs ih =>
    rw [List.mapM_cons] at h
    rcases bind_eq_error.mp h with h | ⟨_, _, h⟩
    · exact ⟨x, List.mem_cons_self, h⟩
    rcases bind_eq_error.mp h with h | ⟨_, _, h⟩
    · obtain ⟨y, hy, hfails⟩ := ih h
      exact ⟨y, List.mem_cons_of_mem x hy, hfails⟩
    · cases h

/-- A choice fails in one of its branches. -/
theorem blames_readChoice (hread : ReaderBlames readBlock) {parts : List (List SourceChar)}
    (hparts : splitBars cs = .ok parts) (h : readChoice readBlock parts = .error fault) :
    Blames cs fault := by
  rcases bind_eq_error.mp h with h | ⟨bodies, _, h⟩
  · obtain ⟨part, hpart, hfails⟩ := exists_of_mapM_eq_error h
    obtain ⟨first, others, rfl, hfirst, hothers⟩ := parts_of_splitBars hparts
    refine (blames_readBody hread hfails).of_part ?_
    rcases List.mem_cons.mp hpart with rfl | hpart
    · exact hfirst.isInfix
    · exact hothers part hpart
  · cases h

/-- White space around what stands in a bracket. -/
theorem exists_trimmed {interior trimmed : List SourceChar}
    (h : SourceChar.trimEnd (SourceChar.trimStart interior) = trimmed) :
    ∃ front back, interior = front ++ trimmed ++ back := by
  obtain ⟨front, hfront⟩ : SourceChar.trimStart interior <:+ interior := List.dropWhile_suffix _
  obtain ⟨back, hback⟩ : trimmed <+: SourceChar.trimStart interior := by
    have hsuffix := List.dropWhile_suffix (l := (SourceChar.trimStart interior).reverse) isBlank
    rw [← List.reverse_prefix, List.reverse_reverse] at hsuffix
    exact h ▸ hsuffix
  refine ⟨front, back, ?_⟩
  rw [List.append_assoc, hback, hfront]

theorem readerBlames_readBracket (hread : ReaderBlames readBlock) :
    ReaderBlames (readBracket readBlock) := by
  intro opening interior closing fault hopening hclosing h
  have hinterior : interior <:+: opening :: (interior ++ [closing]) :=
    ⟨[opening], [closing], rfl⟩
  -- Whatever stands in front of the bars fails in the same way in both cases below.
  have hchoice : ∀ parts, splitBars interior = .ok parts →
      readChoice readBlock parts = .error fault →
      Blames (opening :: (interior ++ [closing])) fault :=
    fun parts hparts h => (blames_readChoice hread hparts h).of_part hinterior
  unfold readBracket at h
  split at h
  · cases h
    exact (FaultAt.emptyBracket hopening).blames
  · rename_i first cs htrimmed
    have hreference : readReference readBlock first cs = .error fault →
        Blames (opening :: (interior ++ [closing])) fault := by
      intro h
      obtain ⟨front, back, hsplit⟩ := exists_trimmed htrimmed
      have hmore : ∃ d ∈ back ++ [closing], d.is ']' = true := ⟨closing, by simp, hclosing⟩
      refine (blames_readReference hread h hmore).of_part ⟨opening :: front, [], ?_⟩
      rw [hsplit]
      simp
    split_ifs at h with hquote
    · split at h
      · cases h
      · rename_i failure hfails
        rcases bind_eq_error.mp h with h | ⟨parts, hparts, h⟩
        · exact (blames_splitBars h).of_part hinterior
        split at h
        · cases h
          exact hreference hfails
        · exact hchoice parts hparts h
    · rcases bind_eq_error.mp h with h | ⟨parts, hparts, h⟩
      · exact (blames_splitBars h).of_part hinterior
      split at h
      · exact hreference h
      · exact hchoice parts hparts h

/-- The levels are counted from the outermost bracket: where none is left, the bracket itself is
to blame. -/
theorem readerBlames_readNested (levels : Nat) : ReaderBlames (readNested levels) := by
  induction levels with
  | zero =>
    intro opening interior closing fault hopening _ h
    cases h
    exact (FaultAt.nestingTooDeep hopening).blames
  | succ levels ih => exact readerBlames_readBracket ih

end

/-! ## From resolved characters to the text -/

section

variable {start : Nat} {cs : List Char} {a b : List SourceChar}

/-- A text is resolved part by part. -/
theorem exists_of_resolve_append (h : resolve start cs = .ok (a ++ b)) :
    ∃ front back, cs = front ++ back ∧ resolve start front = .ok a ∧
      resolve (start + front.length) back = .ok b := by
  fun_induction resolve start cs generalizing a with
  | case1 start =>
    obtain ⟨rfl, rfl⟩ := List.append_eq_nil_iff.mp (Except.ok.inj h).symm
    exact ⟨[], [], rfl, rfl, rfl⟩
  | case2 => cases h
  | case3 start letter rest meant hmeant ih =>
    cases a with
    | nil =>
      refine ⟨[], escapeChar :: letter :: rest, rfl, rfl, ?_⟩
      rw [resolve_escape hmeant]
      exact h
    | cons c a =>
      obtain ⟨tail, htail, hcons⟩ := map_eq_ok.mp h
      obtain ⟨rfl, rfl⟩ := List.cons.inj hcons
      obtain ⟨front, back, rfl, hfront, hback⟩ := ih htail
      refine ⟨escapeChar :: letter :: front, back, rfl, ?_, ?_⟩
      · rw [resolve_escape hmeant, hfront]
        rfl
      · rw [← hback]
        congr 1
        simp only [List.length_cons]
        omega
  | case4 => cases h
  | case5 start c rest hc ih =>
    cases a with
    | nil =>
      refine ⟨[], c :: rest, rfl, rfl, ?_⟩
      rw [resolve_cons hc]
      exact h
    | cons d a =>
      obtain ⟨tail, htail, hcons⟩ := map_eq_ok.mp h
      obtain ⟨rfl, rfl⟩ := List.cons.inj hcons
      obtain ⟨front, back, rfl, hfront, hback⟩ := ih htail
      refine ⟨c :: front, back, rfl, ?_, ?_⟩
      · rw [resolve_cons hc, hfront]
        rfl
      · rw [← hback]
        congr 1
        simp only [List.length_cons]
        omega

/-- The first of the resolved characters: it stands as it is, or behind the escape character. -/
theorem exists_of_resolve_cons {c : SourceChar} (h : resolve start cs = .ok (c :: b)) :
    c.column = start ∧
      ((∃ rest, cs = c.char :: rest ∧ resolve (start + 1) rest = .ok b) ∨ c.escaped = true) := by
  fun_induction resolve start cs with
  | case1 => cases h
  | case2 => cases h
  | case3 start letter rest meant hmeant =>
    obtain ⟨tail, _, hcons⟩ := map_eq_ok.mp h
    obtain ⟨rfl, -⟩ := List.cons.inj hcons
    exact ⟨rfl, Or.inr rfl⟩
  | case4 => cases h
  | case5 start d rest hd =>
    obtain ⟨tail, htail, hcons⟩ := map_eq_ok.mp h
    obtain ⟨rfl, rfl⟩ := List.cons.inj hcons
    exact ⟨rfl, Or.inl ⟨rest, rfl, htail⟩⟩

/-- A mark is not escaped, so the text has it as it is. -/
theorem exists_of_resolve_mark {c : SourceChar} {mark : Char} (hc : c.is mark = true)
    (h : resolve start cs = .ok (c :: b)) :
    ∃ rest, cs = mark :: rest ∧ resolve (start + 1) rest = .ok b := by
  rw [SourceChar.is, Bool.and_eq_true, Bool.not_eq_true', beq_iff_eq] at hc
  rcases exists_of_resolve_cons h with ⟨_, ⟨rest, rfl, hrest⟩ | hescaped⟩
  · exact ⟨rest, hc.2 ▸ rfl, hrest⟩
  · rw [hc.1] at hescaped
    cases hescaped

/-- How many escape characters stand at the end when one more character stands in front. -/
theorem trailing_cons (c : Char) (cs : List Char) :
    ((c :: cs).reverse.takeWhile (· == escapeChar)).length =
      (cs.reverse.takeWhile (· == escapeChar)).length +
        if (cs.reverse.takeWhile (· == escapeChar)).length = cs.length ∧ c = escapeChar
        then 1 else 0 := by
  rw [List.reverse_cons, List.takeWhile_append, List.length_reverse]
  by_cases hall : (cs.reverse.takeWhile (· == escapeChar)).length = cs.length
  · by_cases hc : c = escapeChar <;> simp [hall, hc]
  · simp [hall]

/-- Whatever is resolved leaves no escape character over. -/
theorem settled_of_resolve (h : resolve start cs = .ok a) : Settled cs := by
  unfold Settled
  fun_induction resolve start cs generalizing a with
  | case1 => exact ⟨0, rfl⟩
  | case2 => cases h
  | case3 start letter rest meant hmeant ih =>
    obtain ⟨tail, htail, _⟩ := map_eq_ok.mp h
    have hrest := ih htail
    have hle := (List.takeWhile_sublist (l := rest.reverse) (· == escapeChar)).length_le
    rw [List.length_reverse] at hle
    rw [trailing_cons, trailing_cons, List.length_cons]
    simp only [and_true]
    split_ifs <;> omega
  | case4 => cases h
  | case5 start c rest hc ih =>
    obtain ⟨tail, htail, _⟩ := map_eq_ok.mp h
    rw [trailing_cons, if_neg fun hboth => hc hboth.2]
    exact ih htail

theorem StartsWith.startsAs {text : String} (h : StartsWith a text)
    (hresolve : resolve start cs = .ok a) : StartsAs cs text := by
  obtain ⟨word, rest, rfl, htext⟩ := h
  obtain ⟨written, later, hsplit, hword, _⟩ := exists_of_resolve_append hresolve
  exact ⟨written, later, hsplit, start, word, hword, htext⟩

/-- A fault of resolved characters has its place in the text that they were resolved from. -/
theorem Blames.placed {fault : Fault} (h : Blames a fault) (hresolve : resolve start cs = .ok a) :
    fault.Placed start cs := by
  obtain ⟨before, c, after, rfl, hfault⟩ := h
  obtain ⟨front, back, rfl, hfront, hback⟩ := exists_of_resolve_append hresolve
  obtain ⟨hcolumn, _⟩ := exists_of_resolve_cons hback
  have hne : back ≠ [] := by
    rintro rfl
    cases hback
  have hsettled := settled_of_resolve hfront
  have hmark {mark : Char} (hc : c.is mark = true) : back.head? = some mark := by
    obtain ⟨rest, rfl, _⟩ := exists_of_resolve_mark hc hback
    rfl
  -- Most faults are in the column of their character.
  have hplaced {defect : SyntaxDefect} (hshown : defect.ShownAt front back) :
      Fault.Placed start (front ++ back) ⟨c.column, defect⟩ :=
    ⟨front, back, rfl, hne, hcolumn, hsettled, hshown⟩
  cases hfault with
  | unbalancedBracket isMark => exact hplaced (hmark isMark)
  | unclosedQuote isMark => exact hplaced (hmark isMark)
  | emptyBracket isMark => exact hplaced (hmark isMark)
  | nestingTooDeep isMark => exact hplaced (hmark isMark)
  | malformedWeight isMark => exact hplaced (hmark isMark)
  | negativeWeight isMark => exact hplaced (hmark isMark)
  | invalidSymbolName starts => exact hplaced (starts.startsAs hback)
  | invalidRange starts => exact hplaced (starts.startsAs hback)
  | unexpectedText starts => exact hplaced (starts.startsAs hback)
  | unknownModifier isPoint closes starts =>
    -- The point belongs to what stands in front of the place.
    obtain ⟨rest, rfl, hrest⟩ := exists_of_resolve_mark isPoint hback
    have hpoint : resolve start (front ++ ['.']) =
        .ok (before ++ [⟨'.', false, start + front.length⟩]) := by
      rw [resolve_append hfront, resolve_cons (by decide)]
      rfl
    have hrestNe : rest ≠ [] := by
      rintro rfl
      obtain ⟨d, hd, _⟩ := closes
      cases hrest
      cases hd
    refine ⟨front ++ ['.'], rest, by simp, hrestNe, ?_, settled_of_resolve hpoint,
      ⟨front, rfl, hsettled⟩, starts.startsAs hrest⟩
    simp only [List.length_append, List.length_singleton]
    omega

/-- The first escape that cannot be resolved. -/
theorem exists_of_resolve_error {fault : Fault} (h : resolve start cs = .error fault) :
    ∃ before rest chars, cs = before ++ rest ∧ resolve start before = .ok chars ∧
      fault.column = start + before.length ∧
      (rest = [escapeChar] ∧ fault.defect = .danglingEscape ∨
        ∃ letter later, rest = escapeChar :: letter :: later ∧
          fault.defect = .unknownEscape letter) := by
  fun_induction resolve start cs with
  | case1 => cases h
  | case2 start =>
    cases h
    exact ⟨[], [escapeChar], [], rfl, rfl, rfl, Or.inl ⟨rfl, rfl⟩⟩
  | case3 start letter rest meant hmeant ih =>
    obtain ⟨before, later, chars, rfl, hresolve, hcolumn, hshown⟩ := ih (map_eq_error.mp h)
    refine ⟨escapeChar :: letter :: before, later, ⟨meant, true, start⟩ :: chars, rfl, ?_, ?_,
      hshown⟩
    · rw [resolve_escape hmeant, hresolve]
      rfl
    · simp only [List.length_cons]
      omega
  | case4 start letter rest hnone =>
    cases h
    exact ⟨[], escapeChar :: letter :: rest, [], rfl, rfl, rfl, Or.inr ⟨letter, rest, rfl, rfl⟩⟩
  | case5 start c rest hc ih =>
    obtain ⟨before, later, chars, rfl, hresolve, hcolumn, hshown⟩ := ih (map_eq_error.mp h)
    refine ⟨c :: before, later, ⟨c, false, start⟩ :: chars, rfl, ?_, ?_, hshown⟩
    · rw [resolve_cons hc, hresolve]
      rfl
    · simp only [List.length_cons]
      omega

theorem placed_of_resolve {fault : Fault} (h : resolve start cs = .error fault) :
    fault.Placed start cs := by
  obtain ⟨before, rest, chars, hsplit, hresolve, hcolumn, hshown⟩ := exists_of_resolve_error h
  obtain ⟨column, defect⟩ := fault
  have hsettled := settled_of_resolve hresolve
  rcases hshown with ⟨rfl, rfl⟩ | ⟨letter, later, rfl, rfl⟩
  · exact ⟨before, _, hsplit, List.cons_ne_nil _ _, hcolumn, hsettled, rfl⟩
  · exact ⟨before, _, hsplit, List.cons_ne_nil _ _, hcolumn, hsettled, later, rfl⟩

/-- Whatever keeps a rule from being read has its place in the rule's text. -/
theorem placed_of_read {fault : Fault} (h : Rule.read start cs = .error fault) :
    fault.Placed start cs := by
  rcases bind_eq_error.mp h with h | ⟨chars, hchars, h⟩
  · exact placed_of_resolve h
  rcases bind_eq_error.mp h with h | ⟨body, _, h⟩
  · exact (blames_readBody (readerBlames_readNested nestingLimit) h).placed hchars
  · cases h

end

/-! ## Lines -/

theorem exists_raw_of_mem_ofRaw {number : Nat} {raws : List (List Char)} {line : Line}
    (h : line ∈ Line.ofRaw number raws) : ∃ n raw, line.number = number + n ∧
      raws[n]? = some raw ∧ LineKind.ofRaw? raw = some line.kind := by
  induction raws generalizing number with
  | nil => cases h
  | cons raw raws ih =>
    have hlater (h : line ∈ Line.ofRaw (number + 1) raws) : ∃ n r, line.number = number + n ∧
        (raw :: raws)[n]? = some r ∧ LineKind.ofRaw? r = some line.kind := by
      obtain ⟨n, r, hnumber, hr, hkind⟩ := ih h
      exact ⟨n + 1, r, by omega, hr, hkind⟩
    unfold Line.ofRaw at h
    split at h
    · rename_i kind hkind
      rcases List.mem_cons.mp h with rfl | h
      · exact ⟨0, raw, rfl, rfl, hkind⟩
      · exact hlater h
    · exact hlater h

/-- The columns that may be blamed on a line: the first one of a heading; of a rule, those up to
where its text starts, and those of the text. -/
def LineKind.Covers (column : Nat) : LineKind → Prop
  | .heading _ => column = 1
  | .rule indent text => 1 ≤ column ∧ (column ≤ indent + 1 ∨ column ≤ indent + text.length)

/-- What a raw line is for tells how long it is at least. -/
theorem le_length_of_ofRaw? {raw : List Char} {kind : LineKind}
    (h : LineKind.ofRaw? raw = some kind) {column : Nat} (hcovers : kind.Covers column) :
    1 ≤ column ∧ column ≤ raw.length := by
  have hcontent : (trimEnd (stripComment raw)).length ≤ raw.length :=
    ((trimEnd_isPrefix _).trans (cutComment_isPrefix false raw)).length_le
  have hbody : (trimStart (trimEnd (stripComment raw))).length ≤
      (trimEnd (stripComment raw)).length := (List.dropWhile_sublist _).length_le
  unfold LineKind.ofRaw? at h
  dsimp only at h
  split_ifs at h with hempty hindent
  · cases h
    cases hcovers
    rw [List.isEmpty_iff_length_eq_zero] at hempty
    omega
  · cases h
    obtain ⟨hlow, hhigh⟩ := hcovers
    rw [String.length_ofList] at hhigh
    rw [List.isEmpty_iff_length_eq_zero] at hempty
    omega

section

variable {source : String} {block : Block} {rule : RuleLine}

theorem stray_mem_plainLines (h : rule ∈ (outline source).stray) :
    rule.line ∈ plainLines source := by
  rw [← lines_outline, Outline.lines, List.mem_append]
  exact Or.inl (List.mem_map_of_mem h)

theorem heading_mem_plainLines (h : block ∈ (outline source).blocks) :
    block.heading ∈ plainLines source := by
  rw [← lines_outline, Outline.lines, List.mem_append]
  exact Or.inr (List.mem_flatMap.mpr ⟨block, h, List.mem_cons_self⟩)

theorem rule_mem_plainLines (hblock : block ∈ (outline source).blocks)
    (hrule : rule ∈ block.rules) : rule.line ∈ plainLines source := by
  rw [← lines_outline, Outline.lines, List.mem_append]
  refine Or.inr (List.mem_flatMap.mpr ⟨block, hblock, ?_⟩)
  exact List.mem_cons_of_mem _ (List.mem_map_of_mem hrule)

/-- A defect is one of a line that means something, at a column of it if it has one. -/
theorem exists_line_of_defect {error : SyntaxError} (h : (outline source).Defect error) :
    ∃ line ∈ plainLines source, error.line = line.number ∧
      ∀ column, error.column = some column → line.kind.Covers column := by
  cases h with
  | badIndentation h =>
    obtain ⟨block, hblock, rule, hrule, _, rfl⟩ := h
    refine ⟨rule.line, rule_mem_plainLines hblock hrule, rfl, ?_⟩
    rintro _ ⟨⟩
    exact ⟨Nat.le_refl 1, Or.inl (Nat.le_add_left 1 _)⟩
  | @ruleBeforeSymbol rule hrule =>
    refine ⟨rule.line, stray_mem_plainLines hrule, rfl, ?_⟩
    rintro _ ⟨⟩
    exact ⟨Nat.le_add_left 1 _, Or.inl (Nat.le_refl _)⟩
  | @unreadable block rule fault hblock hrule _ hfault =>
    refine ⟨rule.line, rule_mem_plainLines hblock hrule, rfl, ?_⟩
    rintro _ ⟨⟩
    obtain ⟨before, rest, hsplit, hne, hcolumn, _⟩ := placed_of_read hfault
    have hlength : rule.text.length = before.length + rest.length := by
      rw [← String.length_toList, hsplit, List.length_append]
    have hpos := List.length_pos_iff.mpr hne
    have hbegins : 1 ≤ fault.column := by omega
    have hends : fault.column ≤ rule.indent + rule.text.length := by omega
    exact ⟨hbegins, Or.inr hends⟩
  | invalidSymbolName hblock _ =>
    refine ⟨_, heading_mem_plainLines hblock, rfl, ?_⟩
    rintro _ ⟨⟩
    rfl
  | @duplicateSymbol above below block hsplit _ _ =>
    have hblock : block ∈ (outline source).blocks := by simp [hsplit]
    refine ⟨_, heading_mem_plainLines hblock, rfl, ?_⟩
    rintro _ ⟨⟩
    rfl
  | @emptySymbol above below block hsplit _ _ _ =>
    have hblock : block ∈ (outline source).blocks := by simp [hsplit]
    refine ⟨_, heading_mem_plainLines hblock, rfl, ?_⟩
    rintro _ ⟨⟩

end

/-! ## The law -/

/-- Errors point at what they are about. The error of a pattern that cannot be read is on its only
line, at a column where the text shows the defect and that no escape character takes the meaning
from; and the errors that validation collects name lines of the source, and columns of these. -/
theorem errors_point_at_the_place :
    (∀ (pattern : String) (error : SyntaxError), Rule.ofPattern pattern = .error error →
      error.line = 1 ∧ ∃ column, error.column = some column ∧ 1 ≤ column ∧
        column ≤ pattern.length ∧ Settled (pattern.toList.take (column - 1)) ∧
        error.defect.ShownAt (pattern.toList.take (column - 1))
          (pattern.toList.drop (column - 1))) ∧
    ∀ (source : String) (errors : List SyntaxError), Grammar.validate source = .error errors →
      ∀ error ∈ errors, 1 ≤ error.line ∧ ∃ raw,
        (rawLines source.toList)[error.line - 1]? = some raw ∧
        ∀ column, error.column = some column → 1 ≤ column ∧ column ≤ raw.length := by
  constructor
  · intro pattern error h
    obtain ⟨fault, hfault, rfl⟩ := mapError_eq_error.mp h
    obtain ⟨before, rest, hsplit, hne, hcolumn, hsettled, hshown⟩ := placed_of_read hfault
    have hbefore : fault.column - 1 = before.length := by omega
    have hlength : pattern.length = before.length + rest.length := by
      rw [← String.length_toList, hsplit, List.length_append]
    have hpos := List.length_pos_iff.mpr hne
    refine ⟨rfl, fault.column, rfl, by omega, by omega, ?_⟩
    rw [hbefore, hsplit, List.take_left, List.drop_left]
    exact ⟨hsettled, hshown⟩
  · intro source errors h error herror
    have hdefect : (outline source).Defect error := by
      rw [← Outline.mem_defects, ← collected_validate, h]
      exact herror
    obtain ⟨line, hline, hnumber, hcovers⟩ := exists_line_of_defect hdefect
    obtain ⟨n, raw, hn, hraw, hkind⟩ := exists_raw_of_mem_ofRaw hline
    have hindex : error.line - 1 = n := by omega
    refine ⟨by omega, raw, hindex ▸ hraw, fun column hcolumn => ?_⟩
    exact le_length_of_ofRaw? hkind (hcovers column hcolumn)

/-- The law at a word that names no modifier: in a branch of a choice behind an escape, and on a
line of a source in which a heading has no rules either. -/
theorem unknown_words_are_pointed_at :
    Rule.ofPattern "\\[[one|[two.zz]]" = .error ⟨1, some 13, .unknownModifier "zz"⟩ ∧
    (SyntaxDefect.unknownModifier "zz").ShownAt "\\[[one|[two.".toList "zz]]".toList ∧
    errorOf? (Grammar.validate "noun\n  dog [x.q]\nverb\n") =
      some [⟨2, some 10, .unknownModifier "q"⟩, ⟨3, none, .emptySymbol "verb"⟩] ∧
    10 ≤ "  dog [x.q]".length := by
  obtain ⟨hpatterns, hsources⟩ := errors_point_at_the_place
  have hpattern : errorOf? (Rule.ofPattern "\\[[one|[two.zz]]") =
      some ⟨1, some 13, .unknownModifier "zz"⟩ := by decide +kernel
  have hsource : errorOf? (Grammar.validate "noun\n  dog [x.q]\nverb\n") =
      some [⟨2, some 10, .unknownModifier "q"⟩, ⟨3, none, .emptySymbol "verb"⟩] := by
    decide +kernel
  rw [errorOf?_eq_some] at hpattern
  obtain ⟨_, column, hcolumn, _, _, _, hshown⟩ := hpatterns _ _ hpattern
  obtain ⟨_, raw, hraw, hwithin⟩ := hsources _ _ (errorOf?_eq_some.mp hsource) _
    List.mem_cons_self
  cases hcolumn
  cases hraw
  exact ⟨hpattern, hshown, hsource, (hwithin 10 rfl).2⟩

end TextGrammar
