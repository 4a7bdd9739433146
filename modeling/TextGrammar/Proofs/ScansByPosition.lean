-- The scans for brackets, quotes and bars, by positions. A loop looks at the character at a
-- position and moves the position on; a loop that meets a quote behind a bracket jumps to where the
-- quote closes. No step is missing in any of them, they end before their rounds are over, and each
-- gives what the scan of the characters gives.
import TextGrammar.Proofs.Positions
import TextGrammar.Proofs.RoundTrip

namespace TextGrammar

/-! ## The scan behind an opening bracket -/

/-- How many characters stand before the quote that closes a single quote which has only blanks in
front of it, if there is such a quote. -/
def quoteAhead : List SourceChar → Except Fault (Option Nat)
  | [] => .ok none
  | c :: cs =>
    if c.isBlank then (quoteAhead cs).map (·.map (· + 1))
    else if c.is '\'' then (quotedLength c.column cs).map fun n => some (n + 1)
    else .ok none

section

variable {column inner : Nat}

/-- Quoted text is passed up to the quote that closes it. -/
theorem closingBracket_quoted (quote : Nat) (cs : List SourceChar) :
    closingBracket column (.quoted quote) inner cs =
      (quotedLength quote cs >>= fun n =>
        (closingBracket column .text inner (cs.drop (n + 1))).map (· + (n + 1))) := by
  induction cs with
  | nil => rfl
  | cons c cs ih =>
    rw [closingBracket, quotedLength]
    by_cases hquote : c.is '\'' = true
    · rw [if_pos hquote, if_pos hquote]
      rfl
    · rw [if_neg hquote, if_neg hquote, ih]
      cases quotedLength quote cs with
      | error fault => rfl
      | ok n => exact map_add_map _ _ _

/-- Behind text a character that is no bracket is passed, a quote too. -/
theorem closingBracket_text {c : SourceChar} {cs : List SourceChar} (hopen : ¬c.is '[' = true)
    (hclose : ¬c.is ']' = true) : closingBracket column .text inner (c :: cs) =
      (closingBracket column .text inner cs).map (· + 1) := by
  simp [closingBracket, hopen, hclose]

/-- Behind an opening bracket the scan looks for a quote first. -/
theorem closingBracket_opened (cs : List SourceChar) :
    closingBracket column .opened inner cs =
      (quoteAhead cs >>= fun quote? =>
        match quote? with
        | none => closingBracket column .text inner cs
        | some n => (closingBracket column .text inner (cs.drop (n + 1))).map (· + (n + 1))) := by
  induction cs with
  | nil => rfl
  | cons c cs ih =>
    rw [quoteAhead]
    by_cases hblank : c.isBlank = true
    · have hmark {mark : Char} (hmark : Unicode.isWhiteSpace mark = false) : c.is mark = false := by
        cases hc : c.is mark with
        | false => rfl
        | true => exact absurd hblank (by simp [isBlank_of_is hc hmark])
      rw [if_pos hblank, closingBracket_pass rfl (hmark (by decide)) (hmark (by decide))
        (hmark (by decide)), closingBracket_pass rfl (hmark (by decide)) (hmark (by decide))
        (hmark (by decide)), BracketScan.after, BracketScan.after, if_neg (by decide),
        if_pos hblank, if_pos rfl, ih]
      cases quoteAhead cs with
      | error fault => rfl
      | ok quote? =>
        cases quote? with
        | none => rfl
        | some n => exact map_add_map _ _ _
    rw [if_neg hblank]
    by_cases hquote : c.is '\'' = true
    · have hopen := SourceChar.is_eq_false hquote (by decide : '\'' ≠ '[')
      have hclose := SourceChar.is_eq_false hquote (by decide : '\'' ≠ ']')
      simp only [closingBracket, hopen, hclose, hquote, Bool.false_eq_true, if_false, if_true,
        reduceCtorEq, closingBracket_quoted]
      cases quotedLength c.column cs with
      | error fault => rfl
      | ok n => exact map_add_map _ _ _
    · rw [if_neg hquote, ok_bind]
      simp [closingBracket, hquote, hblank]

end

/-! ## Loops -/

namespace ByPosition

open Attempt

/-- From position `i` on, the position of the quote that closes the one at `opening`. A double quote
is looked for behind the brackets on the way, which `skip` finds the ends of. -/
def closingQuote (skip : Nat → Attempt Fault Nat) (cs : List SourceChar) (opening : Nat)
    (quote : Char) : (rounds : Nat) → (i : Nat) → Attempt Fault Nat
  | 0, _ => step none
  | rounds + 1, i =>
    if i < cs.length then do
      let c ← step cs[i]?
      if c.is quote then pure i
      else if quote != '\'' && c.is '[' then do
        let close ← skip i
        closingQuote skip cs opening quote rounds (close + 1)
      else closingQuote skip cs opening quote rounds (i + 1)
    else do
      let c ← step cs[opening]?
      throw ⟨c.column, .unclosedQuote quote⟩

/-- The first position from `i` on that is not blank, among the next `left`. -/
def firstUnblank? (cs : List SourceChar) : (left : Nat) → (i : Nat) → Option (Option Nat)
  | 0, _ => some none
  | left + 1, i => do
    let c ← cs[i]?
    if c.isBlank then firstUnblank? cs left (i + 1) else some (some i)

/-- The position of the quote that closes the one at `opening`, if that is a single quote. -/
def quoteAt (cs : List SourceChar) : (opening : Option Nat) → Attempt Fault (Option Nat)
  | none => pure none
  | some opening => do
    let c ← step cs[opening]?
    if c.is '\'' then do
      let close ← closingQuote (fun _ => step none) cs opening '\'' (cs.length + 1) (opening + 1)
      pure (some close)
    else pure none

/-- The position of the quote that closes a single quote which stands at `i`, or behind blanks from
there on. -/
def quoteBehind (cs : List SourceChar) (i : Nat) : Attempt Fault (Option Nat) := do
  let opening ← step (firstUnblank? cs (cs.length - i) i)
  quoteAt cs opening

/-- From position `i` on, the position of the bracket that closes the one at `opening`, where
`depth` brackets are open. -/
def closingBracket (cs : List SourceChar) (opening : Nat) :
    (rounds depth i : Nat) → Attempt Fault Nat
  | 0, _, _ => step none
  | rounds + 1, depth, i =>
    if i < cs.length then do
      let c ← step cs[i]?
      if c.is '[' then do
        match ← quoteBehind cs (i + 1) with
        | some close => closingBracket cs opening rounds (depth + 1) (close + 1)
        | none => closingBracket cs opening rounds (depth + 1) (i + 1)
      else if c.is ']' then do
        let depth ← step (minus? depth 1)
        if depth = 0 then pure i else closingBracket cs opening rounds depth (i + 1)
      else closingBracket cs opening rounds depth (i + 1)
    else do
      let c ← step cs[opening]?
      throw ⟨c.column, .unbalancedBracket '['⟩

/-- The position of the bracket that closes the one at `opening`. -/
def matching (cs : List SourceChar) (opening : Nat) : Attempt Fault Nat :=
  closingBracket cs opening (cs.length + 1) 0 opening

/-! ## What the loops give -/

/-- What stands behind a jump over `n` characters and the one that ends it. -/
theorem drop_jump {α : Type} (xs : List α) (i n : Nat) :
    xs.drop (i + n + 1) = (xs.drop i).drop (n + 1) := by
  rw [List.drop_drop, Nat.add_assoc]

section

variable {cs : List SourceChar}

theorem closingQuote_single {skip : Nat → Attempt Fault Nat} {opening : Nat} {quote : SourceChar}
    (hquote : cs[opening]? = some quote) (rounds : Nat) : ∀ i, i ≤ cs.length →
      cs.length < i + rounds → closingQuote skip cs opening '\'' rounds i =
        whole ((quotedLength quote.column (cs.drop i)).map (i + ·)) := by
  induction rounds with
  | zero => intro i hi hrounds; omega
  | succ rounds ih =>
    intro i hi hrounds
    rw [closingQuote]
    by_cases hlt : i < cs.length
    · obtain ⟨c, hc, hdrop⟩ := exists_of_lt_length hlt
      rw [if_pos hlt, hc, hdrop, step_some_bind, quotedLength]
      by_cases hclose : c.is '\'' = true
      · rw [if_pos hclose, if_pos hclose]
        rfl
      · rw [if_neg hclose, if_neg hclose, if_neg (by simp), ih (i + 1) hlt (by omega), map_counted]
    · rw [if_neg hlt, hquote, List.drop_eq_nil_of_le (Nat.le_of_not_lt hlt)]
      rfl

theorem quoteAt_eq {opening : Nat} {c : SourceChar} (hc : cs[opening]? = some c) :
    quoteAt cs (some opening) = whole (if c.is '\'' then
      (quotedLength c.column (cs.drop (opening + 1))).map fun n => some (opening + 1 + n)
      else .ok none) := by
  obtain ⟨hlt, _⟩ := List.getElem?_eq_some_iff.mp hc
  rw [quoteAt, hc, step_some_bind]
  by_cases hquote : c.is '\'' = true
  · rw [if_pos hquote, if_pos hquote, closingQuote_single hc _ _ hlt (by omega)]
    cases quotedLength c.column (cs.drop (opening + 1)) <;> rfl
  · rw [if_neg hquote, if_neg hquote]
    rfl

theorem quoteAt_firstUnblank? (left : Nat) : ∀ i, i + left = cs.length →
    (step (firstUnblank? cs left i) >>= quoteAt cs) =
      whole ((quoteAhead (cs.drop i)).map (·.map (i + ·))) := by
  induction left with
  | zero =>
    intro i hi
    rw [List.drop_eq_nil_of_le (by omega)]
    rfl
  | succ left ih =>
    intro i hi
    obtain ⟨c, hc, hdrop⟩ := exists_of_lt_length (show i < cs.length by omega)
    rw [firstUnblank?, hc, hdrop, quoteAhead, Option.bind_eq_bind, Option.bind_some]
    by_cases hblank : c.isBlank = true
    · rw [if_pos hblank, if_pos hblank, ih (i + 1) (by omega)]
      cases quoteAhead (cs.drop (i + 1)) with
      | error fault => rfl
      | ok quote? =>
        cases quote? with
        | none => rfl
        | some n =>
          have hcount : i + 1 + n = i + (n + 1) := by omega
          exact congrArg (fun k => whole (.ok (some k))) hcount
    · rw [if_neg hblank, if_neg hblank, step_some_bind, quoteAt_eq hc]
      split
      · cases quotedLength c.column (cs.drop (i + 1)) with
        | error fault => rfl
        | ok n =>
          have hcount : i + 1 + n = i + (n + 1) := by omega
          exact congrArg (fun k => whole (.ok (some k))) hcount
      · rfl

theorem quoteBehind_eq {i : Nat} (hi : i ≤ cs.length) :
    quoteBehind cs i = whole ((quoteAhead (cs.drop i)).map (·.map (i + ·))) :=
  quoteAt_firstUnblank? _ i (by omega)

theorem quotedLength_lt {column n : Nat} (h : quotedLength column cs = .ok n) :
    n < cs.length := by
  induction cs generalizing n with
  | nil => cases h
  | cons c cs ih =>
    rw [quotedLength] at h
    split at h
    · cases h
      exact Nat.succ_pos _
    · obtain ⟨m, hm, rfl⟩ := map_eq_ok.mp h
      exact Nat.succ_lt_succ (ih hm)

theorem quoteAhead_lt {n : Nat} (h : quoteAhead cs = .ok (some n)) : n < cs.length := by
  induction cs generalizing n with
  | nil => cases h
  | cons c cs ih =>
    rw [quoteAhead] at h
    split_ifs at h with hblank hquote
    · obtain ⟨quote?, hquote?, h⟩ := map_eq_ok.mp h
      obtain ⟨m, rfl, rfl⟩ := Option.map_eq_some_iff.mp h
      exact Nat.succ_lt_succ (ih hquote?)
    · obtain ⟨m, hm, h⟩ := map_eq_ok.mp h
      cases h
      exact Nat.succ_lt_succ (quotedLength_lt hm)
    · cases h

/-- The step of the loop that a bracket makes, whatever the depth, when the rounds that are left do
for the rest. -/
theorem closingBracket_open {opening : Nat} {bracket c : SourceChar} {rounds depth i : Nat}
    (hi : cs[i]? = some c) (hc : c.is '[' = true)
    (hrest : ∀ j, i < j → j ≤ cs.length → closingBracket cs opening rounds (depth + 1) j =
      whole ((TextGrammar.closingBracket bracket.column .text depth (cs.drop j)).map (j + ·))) :
    closingBracket cs opening (rounds + 1) depth i =
      whole ((TextGrammar.closingBracket bracket.column .opened depth (cs.drop (i + 1))).map
        (i + 1 + ·)) := by
  obtain ⟨hlt, _⟩ := List.getElem?_eq_some_iff.mp hi
  rw [closingBracket, if_pos hlt, hi, step_some_bind, if_pos hc, quoteBehind_eq hlt,
    closingBracket_opened]
  cases hahead : quoteAhead (cs.drop (i + 1)) with
  | error fault => rfl
  | ok quote? =>
    cases quote? with
    | none => exact hrest (i + 1) (Nat.lt_succ_self i) hlt
    | some n =>
      have hn := quoteAhead_lt hahead
      rw [List.length_drop] at hn
      have hjump := hrest (i + 1 + n + 1) (by omega) (by omega)
      refine hjump.trans ?_
      rw [drop_jump, Nat.add_assoc, ← map_counted]
      rfl

/-- Of the brackets that are open, one is the bracket that is to be closed; the others are
counted. -/
theorem closingBracket_eq {opening : Nat} {bracket : SourceChar}
    (hbracket : cs[opening]? = some bracket) (rounds : Nat) : ∀ inner i, i ≤ cs.length →
      cs.length < i + rounds → closingBracket cs opening rounds (inner + 1) i =
        whole ((TextGrammar.closingBracket bracket.column .text inner (cs.drop i)).map
          (i + ·)) := by
  induction rounds with
  | zero => intro inner i hi hrounds; omega
  | succ rounds ih =>
    intro inner i hi hrounds
    by_cases hlt : i < cs.length
    · obtain ⟨c, hc, hdrop⟩ := exists_of_lt_length hlt
      rw [hdrop]
      by_cases hopen : c.is '[' = true
      · rw [TextGrammar.closingBracket_open rfl hopen, map_counted]
        exact closingBracket_open hc hopen fun j hj hlength => ih (inner + 1) j hlength (by omega)
      rw [closingBracket, if_pos hlt, hc, step_some_bind, if_neg hopen]
      by_cases hclose : c.is ']' = true
      · rw [if_pos hclose, minus?_succ, step_some_bind]
        cases inner with
        | zero =>
          rw [if_pos rfl, closingBracket_close_last rfl hclose]
          rfl
        | succ inner =>
          rw [if_neg (Nat.succ_ne_zero _), closingBracket_close rfl hclose, map_counted]
          exact ih inner (i + 1) hlt (by omega)
      · rw [if_neg hclose, ih inner (i + 1) hlt (by omega), closingBracket_text hopen hclose,
          map_counted]
    · rw [closingBracket, if_neg hlt, hbracket, List.drop_eq_nil_of_le (Nat.le_of_not_lt hlt)]
      rfl

/-- The count of open brackets is never taken below zero, for the scan starts at a bracket. -/
theorem matching_eq {opening : Nat} {bracket : SourceChar} (hbracket : cs[opening]? = some bracket)
    (hopen : bracket.is '[' = true) : matching cs opening =
      whole ((interiorLength bracket (cs.drop (opening + 1))).map (opening + 1 + ·)) := by
  obtain ⟨hlt, _⟩ := List.getElem?_eq_some_iff.mp hbracket
  exact closingBracket_open hbracket hopen fun j hj hlength =>
    closingBracket_eq hbracket _ 0 j hlength (by omega)

theorem interiorLength_lt {bracket : SourceChar} {inside : Nat}
    (h : interiorLength bracket cs = .ok inside) : inside < cs.length :=
  (closingBracket_append h []).1

theorem patternLength_lt {column n : Nat} (h : patternLength column cs = .ok n) :
    n < cs.length := by
  fun_induction patternLength column cs generalizing n with
  | case1 => cases h
  | case2 =>
    cases h
    exact Nat.succ_pos _
  | case3 c cs hquote hopen ih =>
    obtain ⟨inside, hinside, h⟩ := bind_eq_ok.mp h
    obtain ⟨rest, hrest, h⟩ := bind_eq_ok.mp h
    cases h
    have hlength := ih inside hrest
    rw [List.length_drop] at hlength
    rw [List.length_cons]
    omega
  | case4 c cs hquote hopen ih =>
    obtain ⟨m, hm, rfl⟩ := map_eq_ok.mp h
    exact Nat.succ_lt_succ (ih hm)

theorem closingQuote_double {opening : Nat} {quote : SourceChar}
    (hquote : cs[opening]? = some quote) (rounds : Nat) : ∀ i, i ≤ cs.length →
      cs.length < i + rounds → closingQuote (matching cs) cs opening '"' rounds i =
        whole ((patternLength quote.column (cs.drop i)).map (i + ·)) := by
  induction rounds with
  | zero => intro i hi hrounds; omega
  | succ rounds ih =>
    intro i hi hrounds
    rw [closingQuote]
    by_cases hlt : i < cs.length
    · obtain ⟨c, hc, hdrop⟩ := exists_of_lt_length hlt
      rw [if_pos hlt, hc, hdrop, step_some_bind, patternLength]
      by_cases hclose : c.is '"' = true
      · rw [if_pos hclose, if_pos hclose]
        rfl
      rw [if_neg hclose, if_neg hclose]
      by_cases hopen : c.is '[' = true
      · rw [if_pos (by simpa using hopen), if_pos hopen, matching_eq hc hopen]
        cases hinside : interiorLength c (cs.drop (i + 1)) with
        | error fault => rfl
        | ok inside =>
          have hlength := interiorLength_lt hinside
          rw [List.length_drop] at hlength
          have hnext := ih (i + 1 + inside + 1) (by omega) (by omega)
          refine hnext.trans ?_
          rw [drop_jump, ok_bind]
          cases patternLength quote.column ((cs.drop (i + 1)).drop (inside + 1)) with
          | error fault => rfl
          | ok n =>
            have hcount : i + 1 + (inside + 1) + n = i + (inside + 2 + n) := by omega
            exact congrArg (fun k => whole (.ok k)) hcount
      · rw [if_neg (by simpa using hopen), if_neg hopen, ih (i + 1) hlt (by omega), map_counted]
    · rw [if_neg hlt, hquote, List.drop_eq_nil_of_le (Nat.le_of_not_lt hlt), patternLength]
      rfl

end

/-! ## Bars -/

/-- From position `i` on, the positions of the bars that stand outside all brackets. -/
def bars (cs : List SourceChar) : (rounds : Nat) → (i : Nat) → Attempt Fault (List Nat)
  | 0, _ => step none
  | rounds + 1, i =>
    if i < cs.length then do
      let c ← step cs[i]?
      if c.is '[' then do
        let close ← matching cs i
        bars cs rounds (close + 1)
      else if c.is ']' then throw ⟨c.column, .unbalancedBracket ']'⟩
      else if c.is '|' then do
        let later ← bars cs rounds (i + 1)
        pure (i :: later)
      else bars cs rounds (i + 1)
    else pure []

/-- Where the bars stand when the first of the parts between them starts at `i`. -/
def barsFrom (i : Nat) : List (List SourceChar) → List Nat
  | part :: other :: parts =>
    (i + part.length) :: barsFrom (i + part.length + 1) (other :: parts)
  | _ => []

theorem barsFrom_extendFirst (i : Nat) (cs : List SourceChar) (parts : List (List SourceChar)) :
    barsFrom i (extendFirst cs parts) = barsFrom (i + cs.length) parts := by
  match parts with
  | [] => rfl
  | [_] => rfl
  | part :: other :: parts =>
    rw [extendFirst, barsFrom, barsFrom, List.length_append, ← Nat.add_assoc]

theorem map_barsFrom_extendFirst (x : Except Fault (List (List SourceChar))) (i : Nat)
    (cs : List SourceChar) :
    (x.map (extendFirst cs)).map (barsFrom i) = x.map (barsFrom (i + cs.length)) := by
  cases x with
  | error fault => rfl
  | ok parts => exact congrArg Except.ok (barsFrom_extendFirst i cs parts)

/-- The bars stand between the parts. -/
theorem bars_eq {cs : List SourceChar} (rounds : Nat) : ∀ i, i ≤ cs.length →
    cs.length < i + rounds →
      bars cs rounds i = whole ((splitBars (cs.drop i)).map (barsFrom i)) := by
  induction rounds with
  | zero => intro i hi hrounds; omega
  | succ rounds ih =>
    intro i hi hrounds
    rw [bars]
    by_cases hlt : i < cs.length
    · obtain ⟨c, hc, hdrop⟩ := exists_of_lt_length hlt
      rw [if_pos hlt, hc, hdrop, step_some_bind, splitBars]
      by_cases hopen : c.is '[' = true
      · rw [if_pos hopen, if_pos hopen, matching_eq hc hopen]
        cases hinside : interiorLength c (cs.drop (i + 1)) with
        | error fault => rfl
        | ok inside =>
          have hlength := interiorLength_lt hinside
          rw [List.length_drop] at hlength
          have hnext := ih (i + 1 + inside + 1) (by omega) (by omega)
          refine hnext.trans ?_
          have hpassed : i + 1 + inside + 1 =
              i + (c :: (cs.drop (i + 1)).take (inside + 1)).length := by
            rw [List.length_cons, List.length_take, List.length_drop]
            omega
          rw [drop_jump, hpassed, ← map_barsFrom_extendFirst, ok_bind]
          cases splitBars ((cs.drop (i + 1)).drop (inside + 1)) <;> rfl
      rw [if_neg hopen, if_neg hopen]
      by_cases hclose : c.is ']' = true
      · rw [if_pos hclose, if_pos hclose]
        rfl
      rw [if_neg hclose, if_neg hclose, ih (i + 1) hlt (by omega)]
      by_cases hbar : c.is '|' = true
      · rw [if_pos hbar, if_pos hbar]
        cases hparts : splitBars (cs.drop (i + 1)) with
        | error fault => rfl
        | ok parts =>
          obtain ⟨part, others, rfl⟩ := List.exists_cons_of_ne_nil (splitBars_parts hparts).1
          rfl
      · rw [if_neg hbar, if_neg hbar, map_barsFrom_extendFirst]
        rfl
    · rw [if_neg hlt, List.drop_eq_nil_of_le (Nat.le_of_not_lt hlt), splitBars]
      rfl

/-! ## Parts between bars -/

/-- The parts of some characters, with a character between each two of them. -/
inductive Parted : List SourceChar → List (List SourceChar) → Prop
  | last (part : List SourceChar) : Parted part [part]
  | more (part : List SourceChar) (bar : SourceChar) {rest : List SourceChar}
      {parts : List (List SourceChar)} (parted : Parted rest parts) :
      Parted (part ++ bar :: rest) (part :: parts)

theorem Parted.extendFirst {cs : List SourceChar} {parts : List (List SourceChar)}
    (h : Parted cs parts) (front : List SourceChar) :
    Parted (front ++ cs) (extendFirst front parts) := by
  cases h with
  | last => exact .last _
  | more part bar parted =>
    rw [← List.append_assoc]
    exact .more _ bar parted

theorem parted_of_splitBars {cs : List SourceChar} {parts : List (List SourceChar)}
    (h : splitBars cs = .ok parts) : Parted cs parts := by
  fun_induction splitBars cs generalizing parts with
  | case1 =>
    cases h
    exact .last []
  | case2 c cs hopen ih =>
    obtain ⟨inside, _, h⟩ := bind_eq_ok.mp h
    obtain ⟨tail, htail, h⟩ := bind_eq_ok.mp h
    cases h
    have hparted := (ih inside htail).extendFirst (c :: cs.take (inside + 1))
    rwa [List.cons_append, List.take_append_drop] at hparted
  | case3 => cases h
  | case4 c cs hopen hclose hbar ih =>
    obtain ⟨tail, htail, rfl⟩ := map_eq_ok.mp h
    exact .more [] c (ih htail)
  | case5 c cs hopen hclose hbar ih =>
    obtain ⟨tail, htail, rfl⟩ := map_eq_ok.mp h
    exact (ih htail).extendFirst [c]

/-! ## White space -/

/-- The last position with a property. -/
def lastIndex? {α : Type} (p : α → Bool) : List α → Option Nat
  | [] => none
  | x :: xs =>
    match lastIndex? p xs with
    | some i => some (i + 1)
    | none => if p x then some 0 else none

/-- The characters from the first that is not blank to the last. -/
def trimmed (cs : List SourceChar) : Option (List SourceChar) :=
  let start := cs.findIdx fun c => !c.isBlank
  cut? cs start ((lastIndex? (fun c => !c.isBlank) cs).elim start (· + 1))

theorem lastIndex?_lt {α : Type} {p : α → Bool} {xs : List α} {i : Nat}
    (h : lastIndex? p xs = some i) : i < xs.length := by
  induction xs generalizing i with
  | nil => cases h
  | cons x xs ih =>
    rw [lastIndex?] at h
    split at h
    · cases h
      exact Nat.succ_lt_succ (ih ‹_›)
    · split_ifs at h
      cases h
      exact Nat.succ_pos _

theorem trimEnd_cons_of_ne {c : SourceChar} {cs : List SourceChar}
    (h : SourceChar.trimEnd cs ≠ []) :
    SourceChar.trimEnd (c :: cs) = c :: SourceChar.trimEnd cs := by
  unfold SourceChar.trimEnd at h ⊢
  rw [List.reverse_cons, List.dropWhile_append, if_neg (by simpa using h), List.reverse_append]
  rfl

theorem trimEnd_cons_of_nil {c : SourceChar} {cs : List SourceChar} (hc : c.isBlank = true)
    (h : SourceChar.trimEnd cs = []) : SourceChar.trimEnd (c :: cs) = [] := by
  unfold SourceChar.trimEnd at h ⊢
  rw [List.reverse_eq_nil_iff] at h
  simp [List.dropWhile_append, h, hc]

theorem trimEnd_eq_take (cs : List SourceChar) : SourceChar.trimEnd cs =
    cs.take ((lastIndex? (fun c => !c.isBlank) cs).elim 0 (· + 1)) := by
  induction cs with
  | nil => rfl
  | cons c cs ih =>
    rw [lastIndex?]
    cases hlast : lastIndex? (fun c => !c.isBlank) cs with
    | some i =>
      rw [hlast] at ih
      have hne : SourceChar.trimEnd cs ≠ [] := by
        have hlt := lastIndex?_lt hlast
        intro hnil
        rw [ih, Option.elim_some, List.take_eq_nil_iff] at hnil
        rcases hnil with hnil | rfl
        · cases hnil
        · cases hlt
      rw [trimEnd_cons_of_ne hne, ih]
      rfl
    | none =>
      rw [hlast] at ih
      cases hblank : c.isBlank with
      | true => exact trimEnd_cons_of_nil hblank ih
      | false =>
        rw [trimEnd_cons hblank, ih]
        rfl

/-- The first position is not behind the last, and both are positions. -/
theorem trimmed_eq (cs : List SourceChar) :
    trimmed cs = some (SourceChar.trimEnd (SourceChar.trimStart cs)) := by
  induction cs with
  | nil => rfl
  | cons c cs ih =>
    cases hblank : c.isBlank with
    | true =>
      have hstart : SourceChar.trimStart (c :: cs) = SourceChar.trimStart cs := by
        simp [SourceChar.trimStart, hblank]
      rw [hstart, ← ih, trimmed, trimmed, List.findIdx_cons, lastIndex?, hblank]
      cases lastIndex? (fun c => !c.isBlank) cs with
      | none => exact cut?_succ _ _ _ _
      | some i => exact cut?_succ _ _ _ _
    | false =>
      have hstart : SourceChar.trimStart (c :: cs) = c :: cs := trimStart_of_head (by simp [hblank])
      rw [hstart, trimEnd_eq_take, trimmed, List.findIdx_cons, hblank]
      refine cut?_zero ?_
      cases hlast : lastIndex? (fun c => !c.isBlank) (c :: cs) with
      | none => exact Nat.zero_le _
      | some i => exact lastIndex?_lt hlast

end ByPosition

end TextGrammar
