-- Rules read by positions. The readers of words, modifiers, references, choices and bodies look at
-- characters by their positions and cut their parts out of the text; the bounds of numbers are cut
-- out by bytes. No step is missing in any of them, and each gives what the reader of the characters
-- gives. As reading goes inwards, so does the proof: from a reader of blocks that misses no step
-- comes a reader of brackets that misses none.
import TextGrammar.Proofs.ScansByPosition
import TextGrammar.Source.RuleReader

namespace TextGrammar

namespace ByPosition

open Attempt

/-! ## Words -/

/-- The offsets at which a character stands in a text that starts at an offset. -/
def offsetsOf (mark : Char) : (offset : Nat) → List Char → List Nat
  | _, [] => []
  | offset, c :: cs =>
    if c = mark then offset :: offsetsOf mark (offset + c.utf8Size) cs
    else offsetsOf mark (offset + c.utf8Size) cs

/-- Reads a word as two numbers with the hyphen between them that stands at one of the offsets, but
not at the start. -/
def readNumbers? (word : List Char) : (offsets : List Nat) → Option (Option DrawRange)
  | [] => some none
  | offset :: offsets =>
    if offset = 0 then readNumbers? word offsets
    else do
      let before ← cutBytes? word 0 offset
      let after ← cutBytes? word (offset + 1) (byteSize word)
      match readInt64? before, readInt64? after with
      | some a, some b => some (some (numberRange a b))
      | _, _ => readNumbers? word offsets

/-- What a word is as a range of numbers. -/
def readNumberRange (word : List Char) : Option RangeShape := do
  let range? ← readNumbers? word (offsetsOf '-' 0 word)
  some (range?.elim .noRange .range)

/-- What a word is as a range. -/
def readRange (word : List Char) : Option RangeShape :=
  if word.length = 3 then do
    let first ← word[0]?
    let hyphen ← word[1]?
    let last ← word[2]?
    if hyphen == '-' && (first.isAlpha && last.isAlpha) then some (letterRange first last)
    else readNumberRange word
  else readNumberRange word

/-- Reads a bare word that stands in `column`. -/
def readWord (column : Nat) (word : List Char) : Attempt Fault Target := do
  match ← step (readRange word) with
  | .range range => pure (.range range)
  | .mixedCase => throw ⟨column, .invalidRange (String.ofList word)⟩
  | .noRange =>
    if isSymbolName word then pure (.symbol (String.ofList word))
    else throw ⟨column, .invalidSymbolName (String.ofList word)⟩

/-- What stands behind a hyphen, which is one byte long. -/
theorem cutBytes?_hyphen (before after : List Char) :
    cutBytes? (before ++ '-' :: after) (byteSize before + 1) (byteSize (before ++ '-' :: after)) =
      some after := by
  have hcut := cutBytes?_after (before ++ ['-']) after
  rw [List.append_assoc, byteSize_append] at hcut
  exact hcut

theorem readNumbers?_eq (before word : List Char) :
    readNumbers? (before ++ word) (offsetsOf '-' (byteSize before) word) =
      some (TextGrammar.readNumbers? before word) := by
  induction word generalizing before with
  | nil => rfl
  | cons c cs ih =>
    have hrest := ih (before ++ [c])
    rw [List.append_assoc, List.singleton_append, byteSize_append, byteSize_cons, byteSize_nil,
      Nat.add_zero] at hrest
    rw [offsetsOf, TextGrammar.readNumbers?]
    by_cases hhyphen : c = '-'
    · rw [if_pos hhyphen, if_pos hhyphen, readNumbers?, hrest]
      cases before with
      | nil => rfl
      | cons b before =>
        have hoffset : byteSize (b :: before) ≠ 0 :=
          Nat.ne_of_gt (Nat.add_pos_left b.utf8Size_pos _)
        rw [if_neg hoffset, cutBytes?_before, hhyphen, cutBytes?_hyphen]
        dsimp only [Option.bind_eq_bind, Option.bind_some]
        cases readInt64? (b :: before) with
        | none => rfl
        | some a => cases readInt64? cs <;> rfl
    · rw [if_neg hhyphen, if_neg hhyphen, hrest, Option.none_or]

theorem readNumberRange_eq (word : List Char) : readNumberRange word =
    some ((TextGrammar.readNumbers? [] word).elim .noRange .range) := by
  have hnumbers : readNumbers? word (offsetsOf '-' 0 word) = _ := readNumbers?_eq [] word
  rw [readNumberRange, hnumbers]
  rfl

/-- What is no pair of letters with a hyphen between them. -/
theorem readRange_of_not_hyphen {word : List Char} (h : ∀ a c, word ≠ [a, '-', c]) :
    TextGrammar.readRange word = (TextGrammar.readNumbers? [] word).elim .noRange .range := by
  unfold TextGrammar.readRange
  split
  · rename_i a c
    exact absurd rfl (h a c)
  · rfl

theorem readRange_eq (word : List Char) : readRange word = some (TextGrammar.readRange word) := by
  rw [readRange, readNumberRange_eq]
  by_cases hlength : word.length = 3
  · obtain ⟨a, b, c, rfl⟩ := List.length_eq_three.mp hlength
    rw [if_pos hlength]
    dsimp only [Option.bind_eq_bind, Option.bind_some, List.getElem?_cons_zero,
      List.getElem?_cons_succ]
    by_cases hhyphen : b = '-'
    · rw [hhyphen, TextGrammar.readRange]
      cases a.isAlpha && c.isAlpha <;> rfl
    · have hnot : (b == '-') = false := by simpa using hhyphen
      rw [hnot, Bool.false_and, if_neg Bool.false_ne_true, readRange_of_not_hyphen]
      rintro _ _ ⟨⟩
      exact hhyphen rfl
  · rw [if_neg hlength, readRange_of_not_hyphen]
    rintro a c rfl
    exact hlength rfl

theorem readWord_eq (column : Nat) (word : List Char) :
    readWord column word = whole (TextGrammar.readWord column word) := by
  rw [readWord, readRange_eq, step_some_bind, TextGrammar.readWord]
  cases TextGrammar.readRange word with
  | range range => rfl
  | mixedCase => rfl
  | noRange => cases isSymbolName word <;> rfl

/-! ## Modifiers -/

/-- The characters in front of a mark, by the position of the mark. -/
theorem takeWhile_not_is (mark : Char) (cs : List SourceChar) :
    cs.takeWhile (fun c => !c.is mark) = cs.take (cs.findIdx fun c => c.is mark) := by
  simp [List.takeWhile_eq_take_findIdx_not]

/-- The characters from a mark on, by the position of the mark. -/
theorem dropWhile_not_is (mark : Char) (cs : List SourceChar) :
    cs.dropWhile (fun c => !c.is mark) = cs.drop (cs.findIdx fun c => c.is mark) := by
  simp [List.dropWhile_eq_drop_findIdx_not]

/-- Reads the modifiers whose first word starts at position `i`, behind its point. -/
def readWords (cs : List SourceChar) : (rounds : Nat) → (i : Nat) → Attempt Fault (List Modifier)
  | 0, _ => step none
  | rounds + 1, i => do
    let ahead ← step (cut? cs i cs.length)
    let stop := i + ahead.findIdx fun c => c.is '.'
    let word ← step (cut? cs i stop)
    let before ← step (minus? i 1)
    let point ← step cs[before]?
    match Modifier.ofToken? (SourceChar.text word) with
    | none => throw ⟨point.column + 1, .unknownModifier (SourceChar.text word)⟩
    | some modifier =>
      if stop = cs.length then pure [modifier]
      else do
        let modifiers ← readWords cs rounds (stop + 1)
        pure (modifier :: modifiers)

/-- Reads the modifiers after a target. -/
def readModifiers (cs : List SourceChar) : Attempt Fault (List Modifier) :=
  match cs with
  | [] => pure []
  | first :: _ =>
    if first.is '.' then readWords cs (cs.length + 1) 1
    else throw ⟨first.column, .unexpectedText (SourceChar.text cs)⟩

theorem readWords_eq {cs : List SourceChar} (rounds : Nat) : ∀ i, i < cs.length →
    cs.length < i + rounds → (∀ c, cs[i]? = some c → c.is '.' = true) →
      readWords cs rounds (i + 1) = whole (TextGrammar.readModifiers (cs.drop i)) := by
  induction rounds with
  | zero => intro i hi hrounds; omega
  | succ rounds ih =>
    intro i hi hrounds hpoint
    obtain ⟨point, hget, hdrop⟩ := exists_of_lt_length hi
    have hle : (cs.drop (i + 1)).findIdx (fun c => c.is '.') ≤ (cs.drop (i + 1)).length :=
      List.findIdx_le_length
    rw [List.length_drop] at hle
    have hnext : ∀ c, cs[i + 1 + (cs.drop (i + 1)).findIdx fun c => c.is '.']? = some c →
        c.is '.' = true := by
      intro c hc
      rw [← List.getElem?_drop] at hc
      exact List.findIdx_of_getElem?_eq_some (p := fun c => SourceChar.is c '.') hc
    rw [readWords, cut?_length (show i + 1 ≤ cs.length from hi), step_some_bind, hdrop,
      TextGrammar.readModifiers, if_pos (hpoint point hget)]
    dsimp only
    rw [cut?_add (by omega), step_some_bind, minus?_succ, step_some_bind, hget, step_some_bind,
      takeWhile_not_is, dropWhile_not_is, List.drop_drop]
    cases Modifier.ofToken? (SourceChar.text ((cs.drop (i + 1)).take
        ((cs.drop (i + 1)).findIdx fun c => c.is '.'))) with
    | none => rfl
    | some modifier =>
      dsimp only
      generalize hstop : i + 1 + (cs.drop (i + 1)).findIdx (fun c => c.is '.') = stop at *
      by_cases hend : stop = cs.length
      · rw [if_pos hend, List.drop_eq_nil_of_le (Nat.le_of_eq hend.symm), TextGrammar.readModifiers]
        rfl
      · rw [if_neg hend, ih stop (by omega) (by omega) hnext]
        cases TextGrammar.readModifiers (cs.drop stop) <;> rfl

theorem readModifiers_eq (cs : List SourceChar) :
    readModifiers cs = whole (TextGrammar.readModifiers cs) := by
  cases cs with
  | nil =>
    rw [readModifiers, TextGrammar.readModifiers]
    rfl
  | cons first cs =>
    rw [readModifiers]
    by_cases hpoint : first.is '.' = true
    · rw [if_pos hpoint]
      refine readWords_eq _ 0 (Nat.succ_pos _) (by omega) ?_
      rintro _ ⟨⟩
      exact hpoint
    · rw [if_neg hpoint, TextGrammar.readModifiers, if_neg hpoint]
      rfl

/-! ## Bodies -/

/-- A reader of what stands inside a bracket, given the column of the bracket. -/
abbrev BlockReader := (column : Nat) → (interior : List SourceChar) → Attempt Fault Segment

/-- The reader of blocks misses no step, and gives what the other gives. -/
def BlockReader.Follows (readBlock : BlockReader) (read : TextGrammar.BlockReader) : Prop :=
  ∀ column interior, readBlock column interior = whole (read column interior)

section

variable (readBlock : BlockReader)

/-- Reads a body from position `i` on, that goes on after the literal characters `literal`, the
last one first. -/
def readBodyFrom (weighted : Bool) (cs : List SourceChar) : (rounds : Nat) →
    (literal : List SourceChar) → (i : Nat) → Attempt Fault RuleBody
  | 0, _, _ => step none
  | rounds + 1, literal, i =>
    if i < cs.length then do
      let c ← step cs[i]?
      if c.is '[' then do
        let close ← matching cs i
        let interior ← step (cut? cs (i + 1) close)
        let block ← readBlock c.column interior
        let body ← readBodyFrom weighted cs rounds [] (close + 1)
        pure ⟨literalSegment literal.reverse ++ block :: body.segments, body.weight⟩
      else if c.is ']' then throw ⟨c.column, .unbalancedBracket ']'⟩
      else if c.is '^' then
        if weighted then do
          let rest ← step (cut? cs (i + 1) cs.length)
          let weight ← whole (readWeight c.column rest)
          pure ⟨literalSegment (SourceChar.trimEnd literal.reverse), some weight⟩
        else do
          let rest ← step (cut? cs i cs.length)
          throw ⟨c.column, .unexpectedText (SourceChar.text rest)⟩
      else readBodyFrom weighted cs rounds (c :: literal) (i + 1)
    else pure ⟨literalSegment literal.reverse, none⟩

/-- Reads a body. -/
def readBody (weighted : Bool) (cs : List SourceChar) : Attempt Fault RuleBody :=
  readBodyFrom readBlock weighted cs (cs.length + 1) [] 0

/-! ## References -/

/-- Reads a target; also gives what follows. -/
def readTarget (cs : List SourceChar) : Attempt Fault (Target × List SourceChar) := do
  let first ← step cs[0]?
  if first.is '[' then do
    let close ← matching cs 0
    let interior ← step (cut? cs 1 close)
    let inner ← readBlock first.column interior
    let rest ← step (cut? cs (close + 1) cs.length)
    pure (.dereference inner, rest)
  else if first.is '\'' then do
    let close ← closingQuote (fun _ => step none) cs 0 '\'' (cs.length + 1) 1
    let inside ← step (cut? cs 1 close)
    let rest ← step (cut? cs (close + 1) cs.length)
    pure (.quoted (SourceChar.text inside), rest)
  else if first.is '"' then do
    let close ← closingQuote (matching cs) cs 0 '"' (cs.length + 1) 1
    let inside ← step (cut? cs 1 close)
    let body ← readBody readBlock false inside
    let rest ← step (cut? cs (close + 1) cs.length)
    pure (.pattern body.segments, rest)
  else do
    let stop := cs.findIdx fun c => c.is '.'
    let word ← step (cut? cs 0 stop)
    let target ← readWord first.column (SourceChar.plain word)
    let rest ← step (cut? cs stop cs.length)
    pure (target, rest)

/-- Reads a target and the modifiers after it. -/
def readReference (cs : List SourceChar) : Attempt Fault Segment := do
  let (target, rest) ← readTarget readBlock cs
  let modifiers ← readModifiers rest
  pure (.reference target modifiers)

/-! ## Brackets -/

/-- Reads a rule from each part between the positions `stops`, of which the first part starts at
`start`. -/
def readBranches (cs : List SourceChar) : (stops : List Nat) → (start : Nat) →
    Attempt Fault (List Rule)
  | [], _ => pure []
  | stop :: stops, start => do
    let part ← step (cut? cs start stop)
    let body ← readBody readBlock true part
    let rules ← readBranches cs stops (stop + 1)
    pure (body.rule :: rules)

/-- Reads the branches of a choice, between bars at the positions `bars`. -/
def readChoice (cs : List SourceChar) (bars : List Nat) : Attempt Fault Segment := do
  let rules ← readBranches readBlock cs (bars ++ [cs.length]) 0
  pure (.choice rules)

/-- Reads what stands inside the bracket in `column`. -/
def readBracket : BlockReader := fun column interior => do
  let text ← step (trimmed interior)
  match text with
  | [] => throw ⟨column, .emptyBracket⟩
  | first :: _ =>
    if first.is '\'' || first.is '"' then do
      match ← (readReference readBlock text).outcome with
      | .ok segment => pure segment
      | .error fault => do
        let found ← bars interior (interior.length + 1) 0
        if found.isEmpty then throw fault else readChoice readBlock interior found
    else do
      let found ← bars interior (interior.length + 1) 0
      if found.isEmpty then readReference readBlock text else readChoice readBlock interior found

end

/-- Reads what stands inside a bracket that has `levels - 1` levels of brackets to spare. -/
def readNested : (levels : Nat) → BlockReader
  | 0 => fun column _ => throw ⟨column, .nestingTooDeep nestingLimit⟩
  | levels + 1 => readBracket (readNested levels)

/-! ## Rules -/

/-- Reads a rule whose text starts in `column`. -/
def readRule (column : Nat) (cs : List Char) : Attempt Fault Rule := do
  let chars ← whole (SourceChar.resolve column cs)
  let body ← readBody (readNested nestingLimit) true chars
  pure body.rule

/-! ## What the readers give -/

section

variable {readBlock : BlockReader} {read : TextGrammar.BlockReader}

/-- The part inside a bracket or quotes at position `i`. -/
theorem cut?_inside {cs : List SourceChar} {i inside : Nat}
    (h : inside < (cs.drop (i + 1)).length) :
    cut? cs (i + 1) (i + 1 + inside) = some ((cs.drop (i + 1)).take inside) ∧
      cut? cs (i + 1 + inside + 1) cs.length = some ((cs.drop (i + 1)).drop (inside + 1)) := by
  rw [List.length_drop] at h
  rw [cut?_add (by omega), cut?_length (by omega), drop_jump]
  exact ⟨rfl, rfl⟩

theorem readBodyFrom_eq (hread : readBlock.Follows read) {weighted : Bool} {cs : List SourceChar}
    (rounds : Nat) : ∀ literal i, i ≤ cs.length → cs.length < i + rounds →
      readBodyFrom readBlock weighted cs rounds literal i =
        whole (TextGrammar.readBody read weighted literal (cs.drop i)) := by
  induction rounds with
  | zero => intro literal i hi hrounds; omega
  | succ rounds ih =>
    intro literal i hi hrounds
    rw [readBodyFrom]
    by_cases hlt : i < cs.length
    · obtain ⟨c, hc, hdrop⟩ := exists_of_lt_length hlt
      rw [if_pos hlt, hc, hdrop, step_some_bind, TextGrammar.readBody]
      by_cases hopen : c.is '[' = true
      · rw [if_pos hopen, if_pos hopen, matching_eq hc hopen]
        cases hinside : interiorLength c (cs.drop (i + 1)) with
        | error fault => rfl
        | ok inside =>
          have hlength := interiorLength_lt hinside
          obtain ⟨hcut, _⟩ := cut?_inside hlength
          rw [List.length_drop] at hlength
          have hnext := ih [] (i + 1 + inside + 1) (by omega) (by omega)
          rw [drop_jump] at hnext
          change (step (cut? cs (i + 1) (i + 1 + inside)) >>= _) = _
          rw [hcut, step_some_bind, hread, ok_bind]
          refine whole_bind_of_ok fun block _ => ?_
          rw [hnext]
          exact whole_bind _ _
      rw [if_neg hopen, if_neg hopen]
      by_cases hclose : c.is ']' = true
      · rw [if_pos hclose, if_pos hclose]
        rfl
      rw [if_neg hclose, if_neg hclose]
      by_cases hcaret : c.is '^' = true
      · have hle : i + 1 ≤ cs.length := hlt
        rw [if_pos hcaret, if_pos hcaret, cut?_length hle, cut?_length hi, hdrop]
        cases weighted with
        | true =>
          rw [if_pos rfl, if_pos rfl, step_some_bind]
          cases readWeight c.column (cs.drop (i + 1)) <;> rfl
        | false => rfl
      · rw [if_neg hcaret, if_neg hcaret, ih (c :: literal) (i + 1) hlt (by omega)]
    · rw [if_neg hlt, List.drop_eq_nil_of_le (Nat.le_of_not_lt hlt), TextGrammar.readBody]
      rfl

theorem readBody_eq (hread : readBlock.Follows read) (weighted : Bool) (cs : List SourceChar) :
    readBody readBlock weighted cs = whole (TextGrammar.readBody read weighted [] cs) :=
  readBodyFrom_eq hread _ [] 0 (Nat.zero_le _) (by omega)

theorem readTarget_eq (hread : readBlock.Follows read) (first : SourceChar)
    (cs : List SourceChar) :
    readTarget readBlock (first :: cs) = whole (TextGrammar.readTarget read first cs) := by
  have hfirst : (first :: cs)[0]? = some first := rfl
  have hdrop : (first :: cs).drop 1 = cs := rfl
  -- What is cut out when the target ends behind `inside` characters.
  have hcuts {inside : Nat} (h : inside < cs.length) :
      cut? (first :: cs) 1 (1 + inside) = some (cs.take inside) ∧
        cut? (first :: cs) (1 + inside + 1) (first :: cs).length = some (cs.drop (inside + 1)) := by
    have hcut := @cut?_inside (first :: cs) 0 inside h
    rwa [Nat.zero_add] at hcut
  rw [readTarget, hfirst, step_some_bind, TextGrammar.readTarget]
  by_cases hopen : first.is '[' = true
  · rw [if_pos hopen, if_pos hopen, matching_eq hfirst hopen, Nat.zero_add, hdrop]
    cases hinside : interiorLength first cs with
    | error fault => rfl
    | ok inside =>
      obtain ⟨hcut, hrest⟩ := hcuts (interiorLength_lt hinside)
      change (step (cut? (first :: cs) 1 (1 + inside)) >>= _) = _
      rw [hcut, step_some_bind, hread, ok_bind]
      refine whole_bind_of_ok fun inner _ => ?_
      rw [hrest]
      rfl
  rw [if_neg hopen, if_neg hopen]
  by_cases hquote : first.is '\'' = true
  · rw [if_pos hquote, if_pos hquote, closingQuote_single hfirst _ 1 (by simp) (by omega), hdrop]
    cases hinside : quotedLength first.column cs with
    | error fault => rfl
    | ok inside =>
      obtain ⟨hcut, hrest⟩ := hcuts (quotedLength_lt hinside)
      change (step (cut? (first :: cs) 1 (1 + inside)) >>= _) = _
      rw [hcut, step_some_bind, hrest]
      rfl
  rw [if_neg hquote, if_neg hquote]
  by_cases hpattern : first.is '"' = true
  · rw [if_pos hpattern, if_pos hpattern, closingQuote_double hfirst _ 1 (by simp) (by omega),
      hdrop]
    cases hinside : patternLength first.column cs with
    | error fault => rfl
    | ok inside =>
      obtain ⟨hcut, hrest⟩ := hcuts (patternLength_lt hinside)
      change (step (cut? (first :: cs) 1 (1 + inside)) >>= _) = _
      rw [hcut, step_some_bind, readBody_eq hread, ok_bind]
      refine whole_bind_of_ok fun body _ => ?_
      rw [hrest]
      rfl
  · have hstop : (first :: cs).findIdx (fun c => c.is '.') ≤ (first :: cs).length :=
      List.findIdx_le_length
    rw [if_neg hpattern, if_neg hpattern]
    dsimp only
    rw [cut?_zero hstop, step_some_bind, readWord_eq, takeWhile_not_is, dropWhile_not_is]
    refine whole_bind_of_ok fun target _ => ?_
    rw [cut?_length hstop]
    rfl

theorem readReference_eq (hread : readBlock.Follows read) (first : SourceChar)
    (cs : List SourceChar) :
    readReference readBlock (first :: cs) = whole (TextGrammar.readReference read first cs) := by
  rw [readReference, readTarget_eq hread]
  refine whole_bind_of_ok fun ⟨target, rest⟩ _ => ?_
  dsimp only
  rw [readModifiers_eq]
  exact whole_bind _ _

/-- The bars cut out the parts that they stand between. -/
theorem readBranches_eq (hread : readBlock.Follows read) {cs : List SourceChar}
    {parts : List (List SourceChar)} (h : Parted cs parts) : ∀ before : List SourceChar,
      readBranches readBlock (before ++ cs)
          (barsFrom before.length parts ++ [(before ++ cs).length]) before.length =
        whole ((parts.mapM (TextGrammar.readBody read true [])).map (·.map RuleBody.rule)) := by
  induction h with
  | last part =>
    intro before
    have hcut : cut? (before ++ part) before.length (before ++ part).length = some part := by
      rw [cut?_length (by simp), List.drop_left]
    have hbars : barsFrom before.length [part] = [] := rfl
    rw [hbars, List.nil_append, readBranches, hcut, step_some_bind, readBody_eq hread,
      List.mapM_cons]
    cases TextGrammar.readBody read true [] part <;> rfl
  | @more part bar rest parts parted ih =>
    intro before
    have hbars : barsFrom before.length (part :: parts) = (before.length + part.length) ::
        barsFrom (before ++ part ++ [bar]).length parts := by
      cases parted <;> simp [barsFrom, Nat.add_assoc]
    have hcut : cut? (before ++ (part ++ bar :: rest)) before.length
        (before.length + part.length) = some part := by
      rw [cut?_add (by simp), List.drop_left, List.take_left]
    have hlater := ih (before ++ part ++ [bar])
    have hwhole : before ++ part ++ [bar] ++ rest = before ++ (part ++ bar :: rest) := by simp
    have hnext : (before ++ part ++ [bar]).length = before.length + part.length + 1 := by
      simp [Nat.add_assoc]
    rw [hwhole, hnext] at hlater
    rw [hbars, hnext, List.cons_append, readBranches, hcut, step_some_bind, readBody_eq hread,
      List.mapM_cons, hlater]
    cases TextGrammar.readBody read true [] part with
    | error fault => rfl
    | ok body => cases parts.mapM (TextGrammar.readBody read true []) <;> rfl

theorem readChoice_eq (hread : readBlock.Follows read) {cs : List SourceChar}
    {parts : List (List SourceChar)} (h : splitBars cs = .ok parts) :
    readChoice readBlock cs (barsFrom 0 parts) = whole (TextGrammar.readChoice read parts) := by
  have hbranches := readBranches_eq hread (parted_of_splitBars h) []
  rw [List.nil_append, List.length_nil] at hbranches
  rw [readChoice, hbranches, TextGrammar.readChoice]
  cases parts.mapM (TextGrammar.readBody read true []) <;> rfl

/-- A choice is read where bars are found, and something else where there are none. -/
theorem choice_or_eq (hread : readBlock.Follows read) (interior : List SourceChar)
    {other : Attempt Fault Segment} {plain : Except Fault Segment} (hother : other = whole plain) :
    (do
      let found ← bars interior (interior.length + 1) 0
      if found.isEmpty then other else readChoice readBlock interior found) =
    whole (do
      match ← splitBars interior with
      | [_] => plain
      | branches => TextGrammar.readChoice read branches) := by
  have hbars := @bars_eq interior (interior.length + 1) 0 (Nat.zero_le _) (by omega)
  rw [List.drop_zero] at hbars
  rw [hbars, hother]
  cases hparts : splitBars interior with
  | error fault => rfl
  | ok parts =>
    match parts, hparts with
    | [], hparts => exact absurd rfl (splitBars_parts hparts).1
    | [_], _ => rfl
    | part :: next :: parts, hparts => exact readChoice_eq hread hparts

theorem readBracket_eq (hread : readBlock.Follows read) :
    (readBracket readBlock).Follows (TextGrammar.readBracket read) := by
  intro column interior
  rw [readBracket, trimmed_eq, step_some_bind, TextGrammar.readBracket]
  cases SourceChar.trimEnd (SourceChar.trimStart interior) with
  | nil => rfl
  | cons first cs =>
    dsimp only
    rw [readReference_eq hread, outcome_whole, whole_ok_bind]
    split
    · cases hreference : TextGrammar.readReference read first cs with
      | ok segment => rfl
      | error fault => exact choice_or_eq hread interior rfl
    · exact choice_or_eq hread interior rfl

theorem readNested_eq (levels : Nat) :
    (readNested levels).Follows (TextGrammar.readNested levels) := by
  induction levels with
  | zero => exact fun column interior => rfl
  | succ levels ih => exact readBracket_eq ih

theorem readRule_eq (column : Nat) (cs : List Char) :
    readRule column cs = whole (Rule.read column cs) := by
  refine whole_bind_of_ok fun chars _ => ?_
  rw [readBody_eq (readNested_eq nestingLimit)]
  exact whole_bind _ _

end

end ByPosition

end TextGrammar
