-- Reading and columns. Text that stands further on in its line is read as it would be in front;
-- only the faults stand further on as well. So it is with each scan and each reader, and as reading
-- goes inwards so does the proof, from a reader of blocks to the reader of brackets around them.
import TextGrammar.Proofs.Scans
import TextGrammar.Source.RuleReader

namespace TextGrammar

/-! ## Moving -/

/-- The character, `n` columns further on. -/
def SourceChar.moved (n : Nat) (c : SourceChar) : SourceChar := { c with column := c.column + n }

/-- The fault, `n` columns further on. -/
def Fault.moved (n : Nat) (fault : Fault) : Fault := { fault with column := fault.column + n }

/-- The scan, `n` columns further on. -/
def BracketScan.moved (n : Nat) : BracketScan → BracketScan
  | .quoted column => .quoted (column + n)
  | scan => scan

/-- The characters, `n` columns further on. -/
def movedAll (n : Nat) (cs : List SourceChar) : List SourceChar := cs.map (SourceChar.moved n)

section

variable {ε ε' α β : Type} {x : Except ε α} {change : ε → ε'}

theorem mapError_ok (a : α) : (Except.ok a).mapError change = Except.ok a := rfl

theorem mapError_bind (f : α → Except ε β) :
    (x >>= f).mapError change = x.mapError change >>= fun a => (f a).mapError change := by
  cases x <;> rfl

theorem mapError_map (f : α → β) :
    (x.map f).mapError change = (x.mapError change).map f := by
  cases x <;> rfl

end

section

variable (n : Nat) (c : SourceChar) (cs : List SourceChar)

@[simp]
theorem is_moved (mark : Char) : (c.moved n).is mark = c.is mark := rfl

@[simp]
theorem isBlank_moved : (c.moved n).isBlank = c.isBlank := rfl

@[simp]
theorem column_moved : (c.moved n).column = c.column + n := rfl

@[simp]
theorem movedAll_nil : movedAll n [] = [] := rfl

@[simp]
theorem movedAll_cons : movedAll n (c :: cs) = c.moved n :: movedAll n cs := rfl

@[simp]
theorem plain_movedAll : SourceChar.plain (movedAll n cs) = SourceChar.plain cs := by
  unfold SourceChar.plain movedAll
  rw [List.map_map]
  rfl

@[simp]
theorem text_movedAll : SourceChar.text (movedAll n cs) = SourceChar.text cs := by
  rw [SourceChar.text, plain_movedAll]
  rfl

@[simp]
theorem take_movedAll (count : Nat) : (movedAll n cs).take count = movedAll n (cs.take count) :=
  List.map_take.symm

@[simp]
theorem drop_movedAll (count : Nat) : (movedAll n cs).drop count = movedAll n (cs.drop count) :=
  List.map_drop.symm

@[simp]
theorem reverse_movedAll : (movedAll n cs).reverse = movedAll n cs.reverse :=
  List.map_reverse.symm

/-- Where a run of characters ends does not go by their columns. -/
theorem takeWhile_movedAll {p : SourceChar → Bool} (hp : ∀ d, p (d.moved n) = p d) :
    (movedAll n cs).takeWhile p = movedAll n (cs.takeWhile p) := by
  have hsame : p ∘ SourceChar.moved n = p := funext hp
  rw [movedAll, List.takeWhile_map, hsame]
  rfl

theorem dropWhile_movedAll {p : SourceChar → Bool} (hp : ∀ d, p (d.moved n) = p d) :
    (movedAll n cs).dropWhile p = movedAll n (cs.dropWhile p) := by
  have hsame : p ∘ SourceChar.moved n = p := funext hp
  rw [movedAll, List.dropWhile_map, hsame]
  rfl

theorem trimStart_movedAll : SourceChar.trimStart (movedAll n cs) =
    movedAll n (SourceChar.trimStart cs) :=
  dropWhile_movedAll n cs fun d => isBlank_moved n d

theorem trimEnd_movedAll : SourceChar.trimEnd (movedAll n cs) =
    movedAll n (SourceChar.trimEnd cs) := by
  rw [SourceChar.trimEnd, reverse_movedAll, dropWhile_movedAll n _ fun d => isBlank_moved n d,
    reverse_movedAll]
  rfl

end

/-- Escapes are resolved the same wherever the text starts. -/
theorem resolve_moved (n column : Nat) (cs : List Char) :
    SourceChar.resolve (column + n) cs =
      ((SourceChar.resolve column cs).map (movedAll n)).mapError (Fault.moved n) := by
  fun_induction SourceChar.resolve column cs with
  | case1 => rfl
  | case2 => rfl
  | case3 column letter rest meant hmeant ih =>
    rw [SourceChar.resolve.eq_def]
    simp only [if_true, hmeant]
    rw [Nat.add_right_comm, ih]
    cases SourceChar.resolve (column + 2) rest <;> rfl
  | case4 column letter rest hnone =>
    rw [SourceChar.resolve.eq_def]
    simp only [if_true, hnone]
    rfl
  | case5 column c cs hne ih =>
    rw [SourceChar.resolve.eq_def]
    simp only [if_neg hne]
    rw [Nat.add_right_comm, ih]
    cases SourceChar.resolve (column + 1) cs <;> rfl

/-! ## Scans -/

section

variable (n : Nat)

theorem outside_moved (scan : BracketScan) : (scan.moved n).outside = scan.outside := by
  cases scan <;> rfl

theorem next_moved (scan : BracketScan) (c : SourceChar) :
    (scan.moved n).next (c.moved n) = (scan.next c).moved n := by
  unfold BracketScan.next
  cases scan with
  | text => rfl
  | opened => cases hquote : c.is '\'' <;> cases hblank : c.isBlank <;>
      simp [hquote, hblank, BracketScan.moved]
  | quoted quote => cases hquote : c.is '\'' <;> cases hblank : c.isBlank <;>
      simp [hquote, hblank, BracketScan.moved]

theorem closingBracket_moved (column inner : Nat) (scan : BracketScan) (cs : List SourceChar) :
    closingBracket (column + n) (scan.moved n) inner (movedAll n cs) =
      (closingBracket column scan inner cs).mapError (Fault.moved n) := by
  have houtside {scan : BracketScan} (hscan : ∀ quote, scan = .quoted quote → False) :
      (scan.moved n).outside = true :=
    (outside_moved n scan).trans (BracketScan.outside_of_unquoted hscan)
  fun_induction closingBracket column scan inner cs with
  | case1 => rfl
  | case2 inner scan hscan =>
    cases scan with
    | quoted quote => exact (hscan quote rfl).elim
    | text => rfl
    | opened => rfl
  | case3 quote inner c cs ih =>
    rw [mapError_map, ← ih, movedAll_cons, BracketScan.moved, closingBracket, is_moved]
    split <;> rfl
  | case4 scan inner c cs hscan hopen ih =>
    rw [mapError_map, ← ih]
    exact closingBracket_open (houtside hscan) hopen
  | case5 scan c cs hscan hopen hclose => exact closingBracket_close_last (houtside hscan) hclose
  | case6 scan c cs hscan hopen hclose inner ih =>
    rw [mapError_map, ← ih]
    exact closingBracket_close (houtside hscan) hclose
  | case7 scan inner c cs hscan hopen hclose next ih =>
    rw [mapError_map, ← ih]
    change _ = (closingBracket _ ((scan.next c).moved n) _ _).map _
    rw [← next_moved]
    exact closingBracket_next (houtside hscan) (Bool.not_eq_true _ ▸ hopen)
      (Bool.not_eq_true _ ▸ hclose)

theorem interiorLength_moved (c : SourceChar) (cs : List SourceChar) :
    interiorLength (c.moved n) (movedAll n cs) =
      (interiorLength c cs).mapError (Fault.moved n) :=
  closingBracket_moved n c.column 0 .opened cs

theorem quotedLength_moved (column : Nat) (cs : List SourceChar) :
    quotedLength (column + n) (movedAll n cs) =
      (quotedLength column cs).mapError (Fault.moved n) := by
  induction cs with
  | nil => rfl
  | cons c cs ih =>
    rw [movedAll_cons, quotedLength, quotedLength, is_moved, ih]
    split
    · rfl
    · rw [mapError_map]

theorem patternLength_moved (column : Nat) (cs : List SourceChar) :
    patternLength (column + n) (movedAll n cs) =
      (patternLength column cs).mapError (Fault.moved n) := by
  fun_induction patternLength column cs with
  | case1 =>
    rw [movedAll_nil, patternLength]
    rfl
  | case2 c cs hquote =>
    rw [movedAll_cons, patternLength, is_moved, if_pos hquote]
    rfl
  | case3 c cs hquote hopen ih =>
    rw [movedAll_cons, patternLength, is_moved, is_moved, if_neg hquote, if_pos hopen,
      interiorLength_moved, mapError_bind]
    refine congrArg _ (funext fun inside => ?_)
    rw [drop_movedAll, ih, mapError_bind]
    rfl
  | case4 c cs hquote hopen ih =>
    rw [movedAll_cons, patternLength, is_moved, is_moved, if_neg hquote, if_neg hopen, ih,
      mapError_map]

theorem extendFirst_moved (cs : List SourceChar) (parts : List (List SourceChar)) :
    extendFirst (movedAll n cs) (parts.map (movedAll n)) =
      (extendFirst cs parts).map (movedAll n) := by
  cases parts with
  | nil => rfl
  | cons part parts =>
    rw [List.map_cons, extendFirst, extendFirst, List.map_cons, movedAll, movedAll, movedAll,
      List.map_append]

theorem splitBars_moved (cs : List SourceChar) :
    splitBars (movedAll n cs) =
      ((splitBars cs).map (List.map (movedAll n))).mapError (Fault.moved n) := by
  fun_induction splitBars cs with
  | case1 =>
    rw [movedAll_nil, splitBars]
    rfl
  | case2 c cs hopen ih =>
    rw [movedAll_cons, splitBars, is_moved, if_pos hopen, interiorLength_moved]
    simp only [take_movedAll, drop_movedAll]
    cases interiorLength c cs with
    | error fault => rfl
    | ok inside =>
      rw [mapError_ok, ok_bind, ok_bind, ih inside]
      cases splitBars (cs.drop (inside + 1)) with
      | error fault => rfl
      | ok parts =>
        exact congrArg Except.ok (extendFirst_moved n (c :: cs.take (inside + 1)) parts)
  | case3 c cs hopen hclose =>
    rw [movedAll_cons, splitBars, is_moved, is_moved, if_neg hopen, if_pos hclose]
    rfl
  | case4 c cs hopen hclose hbar ih =>
    rw [movedAll_cons, splitBars, is_moved, is_moved, is_moved, if_neg hopen, if_neg hclose,
      if_pos hbar, ih]
    cases splitBars cs <;> rfl
  | case5 c cs hopen hclose hbar ih =>
    rw [movedAll_cons, splitBars, is_moved, is_moved, is_moved, if_neg hopen, if_neg hclose,
      if_neg hbar, ih]
    cases splitBars cs with
    | error fault => rfl
    | ok parts => exact congrArg Except.ok (extendFirst_moved n [c] parts)

end

/-! ## Readers -/

/-- A reader of blocks that reads the same in every column. -/
def Movable (n : Nat) (readBlock : BlockReader) : Prop :=
  ∀ column interior, readBlock (column + n) (movedAll n interior) =
    (readBlock column interior).mapError (Fault.moved n)

section

variable {n : Nat}

theorem readWeight_moved (column : Nat) (cs : List SourceChar) :
    readWeight (column + n) (movedAll n cs) =
      (readWeight column cs).mapError (Fault.moved n) := by
  have hescaped : (movedAll n cs).any (·.escaped) = cs.any (·.escaped) := List.any_map
  unfold readWeight
  rw [plain_movedAll, hescaped]
  dsimp only
  split_ifs <;> rfl

theorem literalSegment_moved (cs : List SourceChar) :
    literalSegment (movedAll n cs) = literalSegment cs := by
  rw [literalSegment, text_movedAll, movedAll, List.isEmpty_map]
  rfl

theorem readModifiers_moved (cs : List SourceChar) :
    readModifiers (movedAll n cs) = (readModifiers cs).mapError (Fault.moved n) := by
  have htoken (cs : List SourceChar) : (movedAll n cs).takeWhile (fun d => !d.is '.') =
      movedAll n (cs.takeWhile fun d => !d.is '.') := takeWhile_movedAll n cs fun _ => rfl
  have hrest (cs : List SourceChar) : (movedAll n cs).dropWhile (fun d => !d.is '.') =
      movedAll n (cs.dropWhile fun d => !d.is '.') := dropWhile_movedAll n cs fun _ => rfl
  fun_induction readModifiers cs with
  | case1 =>
    rw [movedAll_nil, readModifiers]
    rfl
  | case2 c cs hpoint token modifier hmodifier ih =>
    have hnamed : Modifier.ofToken? (SourceChar.text (cs.takeWhile fun d => !d.is '.')) =
        some modifier := hmodifier
    rw [movedAll_cons, readModifiers, is_moved, if_pos hpoint]
    simp only [htoken, hrest, text_movedAll, hnamed, ih, mapError_map]
  | case3 c cs hpoint token hunknown =>
    have hunnamed : Modifier.ofToken? (SourceChar.text (cs.takeWhile fun d => !d.is '.')) = none :=
      hunknown
    rw [movedAll_cons, readModifiers, is_moved, if_pos hpoint]
    simp only [htoken, text_movedAll, hunnamed, column_moved, Nat.add_right_comm _ n 1]
    rfl
  | case4 c cs hpoint =>
    rw [movedAll_cons, readModifiers, is_moved, if_neg hpoint, ← movedAll_cons, text_movedAll]
    rfl

theorem readWord_moved (column : Nat) (word : List Char) :
    readWord (column + n) word = (readWord column word).mapError (Fault.moved n) := by
  unfold readWord
  split
  · rfl
  · rfl
  · split <;> rfl

variable {readBlock : BlockReader} (hread : Movable n readBlock)
include hread

theorem readBody_moved (weighted : Bool) (literal cs : List SourceChar) :
    readBody readBlock weighted (movedAll n literal) (movedAll n cs) =
      (readBody readBlock weighted literal cs).mapError (Fault.moved n) := by
  fun_induction readBody readBlock weighted literal cs with
  | case1 literal =>
    rw [movedAll_nil, readBody, reverse_movedAll, literalSegment_moved]
    rfl
  | case2 literal c cs hopen ih =>
    rw [movedAll_cons, readBody, is_moved, if_pos hopen, interiorLength_moved, mapError_bind]
    refine congrArg _ (funext fun inside => ?_)
    rw [column_moved, take_movedAll, drop_movedAll, hread, mapError_bind]
    refine congrArg _ (funext fun block => ?_)
    have hrest := ih inside
    rw [movedAll_nil] at hrest
    rw [hrest, mapError_bind, reverse_movedAll, literalSegment_moved]
    rfl
  | case3 literal c cs hopen hclose =>
    rw [movedAll_cons, readBody, is_moved, is_moved, if_neg hopen, if_pos hclose]
    rfl
  | case4 literal c cs hopen hclose hcaret hweighted =>
    rw [movedAll_cons, readBody, is_moved, is_moved, is_moved, if_neg hopen, if_neg hclose,
      if_pos hcaret, if_pos hweighted, column_moved, readWeight_moved, mapError_bind,
      reverse_movedAll, trimEnd_movedAll, literalSegment_moved]
    rfl
  | case5 literal c cs hopen hclose hcaret hunweighted =>
    rw [movedAll_cons, readBody, is_moved, is_moved, is_moved, if_neg hopen, if_neg hclose,
      if_pos hcaret, if_neg hunweighted, ← movedAll_cons, text_movedAll]
    rfl
  | case6 literal c cs hopen hclose hcaret ih =>
    rw [movedAll_cons, readBody, is_moved, is_moved, is_moved, if_neg hopen, if_neg hclose,
      if_neg hcaret, ← movedAll_cons, ih]

/-- A target, moved with what follows it. -/
theorem readTarget_moved (first : SourceChar) (cs : List SourceChar) :
    readTarget readBlock (first.moved n) (movedAll n cs) =
      ((readTarget readBlock first cs).map (Prod.map id (movedAll n))).mapError
        (Fault.moved n) := by
  unfold readTarget
  simp only [is_moved, column_moved, take_movedAll, drop_movedAll, text_movedAll,
    interiorLength_moved, quotedLength_moved, patternLength_moved]
  split_ifs
  · cases interiorLength first cs with
    | error fault => rfl
    | ok inside =>
      simp only [mapError_ok, ok_bind, hread first.column]
      cases readBlock first.column (cs.take inside) <;> rfl
  · cases quotedLength first.column cs <;> rfl
  · cases patternLength first.column cs with
    | error fault => rfl
    | ok inside =>
      have hbody := readBody_moved hread false [] (cs.take inside)
      rw [movedAll_nil] at hbody
      simp only [mapError_ok, ok_bind, hbody]
      cases readBody readBlock false [] (cs.take inside) <;> rfl
  · rw [← movedAll_cons, takeWhile_movedAll n _ fun _ => rfl, dropWhile_movedAll n _ fun _ => rfl,
      plain_movedAll, readWord_moved]
    cases readWord first.column _ <;> rfl

theorem readReference_moved (first : SourceChar) (cs : List SourceChar) :
    readReference readBlock (first.moved n) (movedAll n cs) =
      (readReference readBlock first cs).mapError (Fault.moved n) := by
  unfold readReference
  rw [readTarget_moved hread]
  cases readTarget readBlock first cs with
  | error fault => rfl
  | ok found =>
    obtain ⟨target, rest⟩ := found
    change readModifiers (movedAll n rest) >>= _ = _
    rw [readModifiers_moved, ok_bind, mapError_bind]
    rfl

theorem readBodies_moved (parts : List (List SourceChar)) :
    (parts.map (movedAll n)).mapM (readBody readBlock true []) =
      (parts.mapM (readBody readBlock true [])).mapError (Fault.moved n) := by
  induction parts with
  | nil => rfl
  | cons part parts ih =>
    have hpart := readBody_moved hread true [] part
    rw [movedAll_nil] at hpart
    rw [List.map_cons, List.mapM_cons, List.mapM_cons, hpart, ih, mapError_bind]
    refine congrArg _ (funext fun body => ?_)
    rw [mapError_bind]
    rfl

theorem readChoice_moved (parts : List (List SourceChar)) :
    readChoice readBlock (parts.map (movedAll n)) =
      (readChoice readBlock parts).mapError (Fault.moved n) := by
  rw [readChoice, readBodies_moved hread, readChoice, mapError_bind]
  rfl

/-- A bracket of which the parts move is one that moves. -/
theorem readBracket_moved : Movable n (readBracket readBlock) := by
  intro column interior
  unfold readBracket
  rw [trimStart_movedAll, trimEnd_movedAll, splitBars_moved]
  cases SourceChar.trimEnd (SourceChar.trimStart interior) with
  | nil => rfl
  | cons first cs =>
    simp only [movedAll_cons, is_moved, readReference_moved hread]
    cases splitBars interior with
    | error fault =>
      split_ifs
      · cases readReference readBlock first cs <;> rfl
      · rfl
    | ok parts =>
      -- A part by itself is no choice, and none is read.
      have hchoice := readChoice_moved hread parts
      rcases parts with _ | ⟨part, _ | ⟨other, parts⟩⟩
      case cons.nil =>
        split_ifs
        · cases readReference readBlock first cs <;> rfl
        · rfl
      all_goals
        split_ifs
        · cases readReference readBlock first cs with
          | ok segment => rfl
          | error fault => exact hchoice
        · exact hchoice

end

theorem readNested_moved (n levels : Nat) : Movable n (readNested levels) := by
  induction levels with
  | zero => exact fun column interior => rfl
  | succ levels ih => exact readBracket_moved ih

/-! ## The law -/

/-- The body that a rule's text reads as when it starts in `column`. -/
def RuleBody.read (column : Nat) (cs : List Char) : Except Fault RuleBody := do
  let chars ← SourceChar.resolve column cs
  readBody (readNested nestingLimit) true [] chars

theorem Rule.read_eq (column : Nat) (cs : List Char) :
    Rule.read column cs = (RuleBody.read column cs).map RuleBody.rule := by
  unfold Rule.read RuleBody.read
  cases SourceChar.resolve column cs with
  | error fault => rfl
  | ok chars =>
    simp only [ok_bind]
    cases readBody (readNested nestingLimit) true [] chars <;> rfl

/-- A text that stands further on in its line is read as it would be in front, and its fault is as
much further on. -/
theorem RuleBody.read_moved (n column : Nat) (cs : List Char) :
    RuleBody.read (column + n) cs = (RuleBody.read column cs).mapError (Fault.moved n) := by
  unfold RuleBody.read
  rw [resolve_moved]
  cases SourceChar.resolve column cs with
  | error fault => rfl
  | ok chars => exact readBody_moved (readNested_moved n nestingLimit) true [] chars

end TextGrammar
