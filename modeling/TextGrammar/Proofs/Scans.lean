-- The scans for closing brackets, quotes and bars on text that is properly nested: each scan
-- passes such text as a whole, whatever follows it.
import TextGrammar.Proofs.Answers
import TextGrammar.Source.Bracket

namespace TextGrammar

/-- One count after another. -/
theorem map_add_map (x : Except Fault Nat) (a b : Nat) :
    (x.map (· + a)).map (· + b) = x.map (· + (a + b)) := by
  cases x <;> simp [Except.map, Nat.add_assoc]

/-- The marks that some scan stops at. -/
def scanMarks : List Char := ['[', ']', '|', '"', '\'']

namespace SourceChar

/-- No scan stops at the character. -/
def IsPlain (c : SourceChar) : Prop := ∀ mark ∈ scanMarks, c.is mark = false

/-- A character is no other mark than it is. -/
theorem is_eq_false {c : SourceChar} {mark other : Char} (h : c.is mark = true)
    (hne : mark ≠ other) : c.is other = false := by
  simp only [is, Bool.and_eq_true, beq_iff_eq] at h ⊢
  simp [h.2, hne]

end SourceChar

/-! ## The scan for a closing bracket -/

/-- The scan is not inside quoted text. -/
def BracketScan.outside : BracketScan → Bool
  | .quoted _ => false
  | _ => true

theorem BracketScan.outside_of_unquoted {scan : BracketScan}
    (h : ∀ quote, scan = .quoted quote → False) : scan.outside = true := by
  cases scan with
  | quoted quote => exact (h quote rfl).elim
  | text => rfl
  | opened => rfl

section

variable {column inner : Nat} {scan : BracketScan} {c : SourceChar} {cs : List SourceChar}

theorem closingBracket_open (hscan : scan.outside = true) (hc : c.is '[' = true) :
    closingBracket column scan inner (c :: cs) =
      (closingBracket column .opened (inner + 1) cs).map (· + 1) := by
  cases scan with
  | quoted quote => cases hscan
  | text => simp [closingBracket, hc]
  | opened => simp [closingBracket, hc]

theorem closingBracket_close_last (hscan : scan.outside = true) (hc : c.is ']' = true) :
    closingBracket column scan 0 (c :: cs) = .ok 0 := by
  have hopen := SourceChar.is_eq_false hc (by decide : ']' ≠ '[')
  cases scan with
  | quoted quote => cases hscan
  | text => simp [closingBracket, hc, hopen]
  | opened => simp [closingBracket, hc, hopen]

theorem closingBracket_close (hscan : scan.outside = true) (hc : c.is ']' = true) :
    closingBracket column scan (inner + 1) (c :: cs) =
      (closingBracket column .text inner cs).map (· + 1) := by
  have hopen := SourceChar.is_eq_false hc (by decide : ']' ≠ '[')
  cases scan with
  | quoted quote => cases hscan
  | text => simp [closingBracket, hc, hopen]
  | opened => simp [closingBracket, hc, hopen]

/-- What the scan has passed after a character that it does not stop at. -/
def BracketScan.after (scan : BracketScan) (c : SourceChar) : BracketScan :=
  if scan = .text then .text else if c.isBlank then .opened else .text

theorem BracketScan.after_outside : (scan.after c).outside = true := by
  unfold after
  split
  · rfl
  · split <;> rfl

/-- What the scan has passed after a character that is no bracket. -/
def BracketScan.next (scan : BracketScan) (c : SourceChar) : BracketScan :=
  if scan = .text then .text
  else if c.is '\'' then .quoted c.column
  else if c.isBlank then .opened
  else .text

theorem closingBracket_next (hscan : scan.outside = true) (hopen : c.is '[' = false)
    (hclose : c.is ']' = false) :
    closingBracket column scan inner (c :: cs) =
      (closingBracket column (scan.next c) inner cs).map (· + 1) := by
  cases scan with
  | quoted quote => cases hscan
  | text => simp [closingBracket, hopen, hclose, BracketScan.next]
  | opened => simp [closingBracket, hopen, hclose, BracketScan.next]

theorem BracketScan.next_eq_after (hquote : c.is '\'' = false) : scan.next c = scan.after c := by
  simp [next, after, hquote]

theorem closingBracket_pass (hscan : scan.outside = true) (hopen : c.is '[' = false)
    (hclose : c.is ']' = false) (hquote : c.is '\'' = false) :
    closingBracket column scan inner (c :: cs) =
      (closingBracket column (scan.after c) inner cs).map (· + 1) := by
  rw [closingBracket_next hscan hopen hclose, BracketScan.next_eq_after hquote]

end

/-! ## Text that the scan crosses -/

/-- From `scan` on, the scan passes the characters and is outside quoted text behind them. -/
def Crosses (scan : BracketScan) (cs : List SourceChar) : Prop :=
  ∃ next : BracketScan, next.outside = true ∧ ∀ column inner rest,
    closingBracket column scan inner (cs ++ rest) =
      (closingBracket column next inner rest).map (· + cs.length)

/-- The scan passes the characters whatever it has passed outside quoted text. -/
def Passes (cs : List SourceChar) : Prop :=
  ∀ scan : BracketScan, scan.outside = true → Crosses scan cs

theorem Crosses.append {scan : BracketScan} {a b : List SourceChar} (ha : Crosses scan a)
    (hb : Passes b) : Crosses scan (a ++ b) := by
  obtain ⟨middle, hmiddle, ha⟩ := ha
  obtain ⟨next, hnext, hb⟩ := hb middle hmiddle
  refine ⟨next, hnext, ?_⟩
  intro column inner rest
  rw [List.append_assoc, ha, hb, map_add_map, List.length_append, Nat.add_comm]

theorem Passes.append {a b : List SourceChar} (ha : Passes a) (hb : Passes b) :
    Passes (a ++ b) := fun scan hscan => (ha scan hscan).append hb

theorem passes_nil : Passes [] := by
  intro scan hscan
  refine ⟨scan, hscan, ?_⟩
  intro column inner rest
  rw [List.nil_append]
  cases closingBracket column scan inner rest <;> simp [Except.map]

theorem passes_singleton {c : SourceChar} (hopen : c.is '[' = false) (hclose : c.is ']' = false)
    (hquote : c.is '\'' = false) : Passes [c] := by
  intro scan hscan
  refine ⟨scan.after c, BracketScan.after_outside, ?_⟩
  intro column inner rest
  exact closingBracket_pass hscan hopen hclose hquote

theorem passes_of_plain {cs : List SourceChar} (h : ∀ c ∈ cs, c.IsPlain) : Passes cs := by
  induction cs with
  | nil => exact passes_nil
  | cons c cs ih =>
    have hc := h c List.mem_cons_self
    have hsingle : Passes [c] :=
      passes_singleton (hc _ (by decide)) (hc _ (by decide)) (hc _ (by decide))
    exact hsingle.append (ih fun d hd => h d (List.mem_cons_of_mem c hd))

/-- Quoted text directly behind a bracket is passed whatever it holds. -/
theorem crosses_quoted {first last : SourceChar} {cs : List SourceChar}
    (hfirst : first.is '\'' = true) (hlast : last.is '\'' = true)
    (hcs : ∀ c ∈ cs, c.is '\'' = false) : Crosses .opened (first :: (cs ++ [last])) := by
  have hinside : ∀ quote column inner rest,
      closingBracket column (.quoted quote) inner (cs ++ last :: rest) =
        (closingBracket column .text inner rest).map (· + (cs.length + 1)) := by
    intro quote column inner rest
    induction cs with
    | nil => simp [closingBracket, hlast]
    | cons c cs ih =>
      have hc := hcs c List.mem_cons_self
      have htail := ih fun d hd => hcs d (List.mem_cons_of_mem c hd)
      simp only [List.cons_append, closingBracket, hc, Bool.false_eq_true, if_false, htail,
        map_add_map, List.length_cons]
  have hopen := SourceChar.is_eq_false hfirst (by decide : '\'' ≠ '[')
  have hclose := SourceChar.is_eq_false hfirst (by decide : '\'' ≠ ']')
  refine ⟨.text, rfl, ?_⟩
  intro column inner rest
  simp only [List.cons_append, List.append_assoc, List.nil_append, closingBracket, hopen, hclose,
    hfirst, Bool.false_eq_true, if_false, if_true, reduceCtorEq, hinside, map_add_map,
    List.length_cons, List.length_append, List.length_nil, Nat.zero_add]

/-! ## Brackets that close -/

theorem drop_past (cs : List SourceChar) (c : SourceChar) (rest : List SourceChar) :
    (cs ++ c :: rest).drop (cs.length + 1) = rest := by
  rw [List.append_cons]
  exact List.drop_left' (by simp)

theorem take_past (cs : List SourceChar) (c : SourceChar) (rest : List SourceChar) :
    (cs ++ c :: rest).take (cs.length + 1) = cs ++ [c] := by
  rw [List.append_cons]
  exact List.take_left' (by simp)

/-- Where a bracket closes goes by what stands up to there. -/
theorem exists_closed {column inner n : Nat} {scan : BracketScan} {cs : List SourceChar}
    (h : closingBracket column scan inner cs = .ok n) :
    ∃ interior closing later, cs = interior ++ closing :: later ∧ interior.length = n ∧
      closing.is ']' = true ∧
      ∀ rest, closingBracket column scan inner (interior ++ closing :: rest) = .ok n := by
  fun_induction closingBracket column scan inner cs generalizing n with
  | case1 => cases h
  | case2 => cases h
  | case3 quote inner c cs ih =>
    obtain ⟨m, hm, rfl⟩ := map_eq_ok.mp h
    obtain ⟨interior, closing, later, rfl, rfl, hclosing, hrest⟩ := ih hm
    refine ⟨c :: interior, closing, later, rfl, rfl, hclosing, fun rest => ?_⟩
    rw [List.cons_append, closingBracket, hrest]
    rfl
  | case4 scan inner c cs hscan hopen ih =>
    obtain ⟨m, hm, rfl⟩ := map_eq_ok.mp h
    obtain ⟨interior, closing, later, rfl, rfl, hclosing, hrest⟩ := ih hm
    refine ⟨c :: interior, closing, later, rfl, rfl, hclosing, fun rest => ?_⟩
    cases inner
    all_goals
      rw [List.cons_append, closingBracket, if_pos hopen, hrest]
      · rfl
      · exact hscan
  | case5 scan c cs hscan hopen hclose =>
    cases h
    refine ⟨[], c, cs, rfl, rfl, hclose, fun rest => ?_⟩
    rw [List.nil_append, closingBracket, if_neg hopen, if_pos hclose]
    exact hscan
  | case6 scan c cs hscan hopen hclose inner ih =>
    obtain ⟨m, hm, rfl⟩ := map_eq_ok.mp h
    obtain ⟨interior, closing, later, rfl, rfl, hclosing, hrest⟩ := ih hm
    refine ⟨c :: interior, closing, later, rfl, rfl, hclosing, fun rest => ?_⟩
    rw [List.cons_append, closingBracket, if_neg hopen, if_pos hclose, hrest]
    · rfl
    · exact hscan
  | case7 scan inner c cs hscan hopen hclose next =>
    rename_i ih
    obtain ⟨m, hm, rfl⟩ := map_eq_ok.mp h
    obtain ⟨interior, closing, later, rfl, rfl, hclosing, hrest⟩ := ih hm
    refine ⟨c :: interior, closing, later, rfl, rfl, hclosing, fun rest => ?_⟩
    cases inner
    all_goals
      rw [List.cons_append, closingBracket, if_neg hopen, if_neg hclose]
      · exact congrArg (Except.map (· + 1)) (hrest rest)
      · exact hscan

/-- More text does not move the bracket that closes. -/
theorem closingBracket_append {column inner n : Nat} {scan : BracketScan} {cs : List SourceChar}
    (h : closingBracket column scan inner cs = .ok n) (rest : List SourceChar) :
    n < cs.length ∧ closingBracket column scan inner (cs ++ rest) = .ok n := by
  obtain ⟨interior, closing, later, rfl, rfl, _, hclosed⟩ := exists_closed h
  rw [List.append_assoc, List.cons_append]
  exact ⟨by simp, hclosed (later ++ rest)⟩

/-- What holds no closing bracket does not close one in front of it. -/
theorem closingBracket_of_append {column inner n : Nat} {scan : BracketScan}
    {cs rest : List SourceChar} (hrest : ∀ c ∈ rest, c.is ']' = false)
    (h : closingBracket column scan inner (cs ++ rest) = .ok n) :
    closingBracket column scan inner cs = .ok n := by
  obtain ⟨interior, closing, later, hsplit, _, hclosing, hclosed⟩ := exists_closed h
  have hbehind (between : List SourceChar) : rest ≠ between ++ closing :: later := by
    rintro rfl
    rw [hrest closing (by simp)] at hclosing
    cases hclosing
  rcases List.append_eq_append_iff.mp hsplit with ⟨between, _, heq⟩ | ⟨bs, rfl, heq⟩
  · exact absurd heq (hbehind between)
  cases bs with
  | nil => exact absurd heq.symm (hbehind [])
  | cons d bs =>
    obtain ⟨rfl, _⟩ := List.cons.inj heq
    exact hclosed bs

/-- A bracket that opens, text that the scan crosses, and the bracket that closes it. -/
structure Closed (opening : SourceChar) (interior : List SourceChar) (closing : SourceChar) :
    Prop where
  opens : opening.is '[' = true
  closes : closing.is ']' = true
  crosses : Crosses .opened interior

section

variable {opening closing : SourceChar} {interior : List SourceChar}

theorem Closed.interiorLength (h : Closed opening interior closing) (rest : List SourceChar) :
    interiorLength opening (interior ++ closing :: rest) = .ok interior.length := by
  obtain ⟨next, hnext, hcross⟩ := h.crosses
  unfold TextGrammar.interiorLength
  rw [hcross, closingBracket_close_last hnext h.closes]
  simp [Except.map]

theorem Closed.passes (h : Closed opening interior closing) :
    Passes (opening :: (interior ++ [closing])) := by
  intro scan hscan
  obtain ⟨next, hnext, hcross⟩ := h.crosses
  refine ⟨.text, rfl, ?_⟩
  intro column inner rest
  rw [List.cons_append, List.append_assoc, closingBracket_open hscan h.opens, hcross,
    List.singleton_append, closingBracket_close hnext h.closes, map_add_map, map_add_map]
  have hlength : 1 + (interior.length + 1) = (opening :: (interior ++ [closing])).length := by
    simp only [List.length_cons, List.length_append, List.length_nil]
    omega
  rw [hlength]

/-- What stands in front of the end of a bracket does not close it. -/
theorem Closed.not_closed {inside missing : List SourceChar}
    (h : Closed opening interior closing) (hsplit : inside ++ missing = interior ++ [closing])
    (hmissing : missing ≠ []) (n : Nat) : TextGrammar.interiorLength opening inside ≠ .ok n := by
  intro hinside
  obtain ⟨hlt, hwhole⟩ := closingBracket_append hinside missing
  have hclosed := h.interiorLength []
  rw [TextGrammar.interiorLength, ← hsplit, hwhole, Except.ok.injEq] at hclosed
  have hlength := congrArg List.length hsplit
  rw [List.length_append, List.length_append, List.length_singleton] at hlength
  have hpos := List.length_pos_iff.mpr hmissing
  omega

end

/-! ## Bars -/

theorem extendFirst_ne_nil (cs : List SourceChar) (parts : List (List SourceChar)) :
    extendFirst cs parts ≠ [] := by
  cases parts <;> simp [extendFirst]

theorem mem_extendFirst {cs part : List SourceChar} {parts : List (List SourceChar)}
    {c : SourceChar} (hpart : part ∈ extendFirst cs parts) (hc : c ∈ part) :
    c ∈ cs ∨ ∃ p ∈ parts, c ∈ p := by
  cases parts with
  | nil =>
    rw [extendFirst, List.mem_singleton] at hpart
    exact Or.inl (hpart ▸ hc)
  | cons branch branches =>
    rcases List.mem_cons.mp hpart with rfl | hpart
    · rcases List.mem_append.mp hc with h | h
      · exact Or.inl h
      · exact Or.inr ⟨branch, List.mem_cons_self, h⟩
    · exact Or.inr ⟨part, List.mem_cons_of_mem _ hpart, hc⟩

/-- There is always a part, and its characters are characters of the whole. -/
theorem splitBars_parts {cs : List SourceChar} {parts : List (List SourceChar)}
    (h : splitBars cs = .ok parts) : parts ≠ [] ∧ ∀ part ∈ parts, ∀ c ∈ part, c ∈ cs := by
  fun_induction splitBars cs generalizing parts with
  | case1 =>
    cases h
    simp
  | case2 c cs hopen ih =>
    obtain ⟨inside, _, h⟩ := bind_eq_ok.mp h
    obtain ⟨tail, htail, h⟩ := bind_eq_ok.mp h
    cases h
    obtain ⟨_, hmem⟩ := ih inside htail
    refine ⟨extendFirst_ne_nil _ _, ?_⟩
    intro part hpart d hd
    rcases mem_extendFirst hpart hd with hd | ⟨p, hp, hd⟩
    · rcases List.mem_cons.mp hd with rfl | hd
      · exact List.mem_cons_self
      · exact List.mem_cons_of_mem _ (List.mem_of_mem_take hd)
    · exact List.mem_cons_of_mem _ (List.mem_of_mem_drop (hmem p hp d hd))
  | case3 c cs hopen hclose => cases h
  | case4 c cs hopen hclose hbar ih =>
    obtain ⟨tail, htail, rfl⟩ := map_eq_ok.mp h
    obtain ⟨_, hmem⟩ := ih htail
    refine ⟨by simp, ?_⟩
    intro part hpart d hd
    rcases List.mem_cons.mp hpart with rfl | hpart
    · cases hd
    · exact List.mem_cons_of_mem _ (hmem part hpart d hd)
  | case5 c cs hopen hclose hbar ih =>
    obtain ⟨tail, htail, rfl⟩ := map_eq_ok.mp h
    obtain ⟨_, hmem⟩ := ih htail
    refine ⟨extendFirst_ne_nil _ _, ?_⟩
    intro part hpart d hd
    rcases mem_extendFirst hpart hd with hd | ⟨p, hp, hd⟩
    · rw [List.mem_singleton.mp hd]
      exact List.mem_cons_self
    · exact List.mem_cons_of_mem _ (hmem p hp d hd)

theorem extendFirst_append (a b : List SourceChar) (parts : List (List SourceChar)) :
    extendFirst (a ++ b) parts = extendFirst a (extendFirst b parts) := by
  cases parts with
  | nil => rfl
  | cons branch branches => simp [extendFirst]

theorem splitBars_nil_append (rest : List SourceChar) :
    (splitBars rest).map (extendFirst []) = splitBars rest := by
  cases h : splitBars rest with
  | error fault => rfl
  | ok parts =>
    obtain ⟨hne, _⟩ := splitBars_parts h
    obtain ⟨branch, branches, rfl⟩ := List.exists_cons_of_ne_nil hne
    rfl

theorem map_extendFirst_append (x : Except Fault (List (List SourceChar)))
    (a b : List SourceChar) :
    (x.map (extendFirst b)).map (extendFirst a) = x.map (extendFirst (a ++ b)) := by
  cases x with
  | error fault => rfl
  | ok parts => exact congrArg Except.ok (extendFirst_append a b parts).symm

/-- The marks that the search for bars stops at. -/
def barMarks : List Char := ['[', ']', '|']

/-- The search for bars finds none in the characters. -/
def Barless (cs : List SourceChar) : Prop :=
  ∀ rest, splitBars (cs ++ rest) = (splitBars rest).map (extendFirst cs)

namespace Barless

variable {a b cs : List SourceChar}

theorem nil : Barless [] := fun rest => (splitBars_nil_append rest).symm

theorem append (ha : Barless a) (hb : Barless b) : Barless (a ++ b) := by
  intro rest
  rw [List.append_assoc, ha, hb, map_extendFirst_append]

theorem cons {c : SourceChar} (hc : ∀ mark ∈ barMarks, c.is mark = false) (hcs : Barless cs) :
    Barless (c :: cs) := by
  have hopen := hc '[' (by decide)
  have hclose := hc ']' (by decide)
  have hbar := hc '|' (by decide)
  intro rest
  rw [List.cons_append, splitBars]
  simp only [hopen, hclose, hbar, Bool.false_eq_true, if_false, hcs rest]
  exact map_extendFirst_append _ [c] cs

theorem of_unmarked (h : ∀ c ∈ cs, ∀ mark ∈ barMarks, c.is mark = false) : Barless cs := by
  induction cs with
  | nil => exact nil
  | cons c cs ih =>
    exact cons (h c List.mem_cons_self) (ih fun d hd => h d (List.mem_cons_of_mem c hd))

/-- A bracket that closes is passed as a whole. -/
theorem block {opening closing : SourceChar} {interior : List SourceChar}
    (hopening : opening.is '[' = true)
    (hlength : ∀ rest, interiorLength opening (interior ++ closing :: rest) = .ok interior.length) :
    Barless (opening :: (interior ++ [closing])) := by
  intro rest
  rw [List.cons_append, List.append_assoc, List.singleton_append, splitBars]
  simp only [hopening, if_true, hlength, ok_bind, drop_past, take_past]
  cases splitBars rest <;> rfl

/-- Text without bars is a single part. -/
theorem single (h : Barless cs) : splitBars cs = .ok [cs] := by
  have hsplit := h []
  rw [List.append_nil, splitBars] at hsplit
  rw [hsplit]
  simp [Except.map, extendFirst]

end Barless

/-! ## Properly nested text -/

/-- Characters that no scan stops at, and brackets that close. -/
inductive Nested : List SourceChar → Prop
  | nil : Nested []
  | plain {c : SourceChar} {cs : List SourceChar} (plain : c.IsPlain) (rest : Nested cs) :
      Nested (c :: cs)
  | block {opening closing : SourceChar} {interior cs : List SourceChar}
      (closed : Closed opening interior closing) (rest : Nested cs) :
      Nested (opening :: (interior ++ closing :: cs))

namespace Nested

theorem of_plain {cs : List SourceChar} (h : ∀ c ∈ cs, c.IsPlain) : Nested cs := by
  induction cs with
  | nil => exact .nil
  | cons c cs ih =>
    exact .plain (h c List.mem_cons_self) (ih fun d hd => h d (List.mem_cons_of_mem c hd))

theorem append {a b : List SourceChar} (ha : Nested a) (hb : Nested b) : Nested (a ++ b) := by
  induction ha with
  | nil => exact hb
  | plain hplain _ ih => exact .plain hplain ih
  | block hclosed _ ih =>
    rw [List.cons_append, List.append_assoc, List.cons_append]
    exact .block hclosed ih

theorem passes {cs : List SourceChar} (h : Nested cs) : Passes cs := by
  induction h with
  | nil => exact passes_nil
  | @plain c cs hplain _ ih =>
    have hc : Passes [c] := passes_of_plain (by simpa using hplain)
    exact hc.append ih
  | @block opening closing interior cs hclosed _ ih =>
    have happend := hclosed.passes.append ih
    rwa [List.cons_append, List.append_assoc, List.singleton_append] at happend

/-- The scan for a double quote passes the text. -/
theorem patternLength {cs : List SourceChar} (h : Nested cs) (column : Nat)
    (rest : List SourceChar) :
    patternLength column (cs ++ rest) =
      (TextGrammar.patternLength column rest).map (· + cs.length) := by
  induction h with
  | nil =>
    rw [List.nil_append]
    cases TextGrammar.patternLength column rest <;> simp [Except.map]
  | @plain c cs hplain _ ih =>
    have hquote := hplain '"' (by decide)
    have hopen := hplain '[' (by decide)
    rw [List.cons_append, TextGrammar.patternLength]
    simp only [hquote, hopen, Bool.false_eq_true, if_false, ih, map_add_map, List.length_cons]
  | @block opening closing interior cs hclosed _ ih =>
    have hquote := SourceChar.is_eq_false hclosed.opens (by decide : '[' ≠ '"')
    rw [List.cons_append, List.append_assoc, List.cons_append, TextGrammar.patternLength]
    simp only [hquote, hclosed.opens, Bool.false_eq_true, if_false, if_true,
      hclosed.interiorLength, ok_bind, drop_past, ih]
    have hlength (n : Nat) : interior.length + 2 + (n + cs.length) =
        n + (opening :: (interior ++ closing :: cs)).length := by
      simp only [List.length_cons, List.length_append]
      omega
    cases TextGrammar.patternLength column rest with
    | error fault => rfl
    | ok n => exact congrArg Except.ok (hlength n)

/-- No bar stands in the text outside brackets. -/
theorem barless {cs : List SourceChar} (h : Nested cs) : Barless cs := by
  induction h with
  | nil => exact .nil
  | plain hplain _ ih =>
    have hsub : barMarks ⊆ scanMarks := by decide
    exact .cons (fun mark hmark => hplain mark (hsub hmark)) ih
  | @block opening closing interior cs hclosed _ ih =>
    have happend := (Barless.block hclosed.opens hclosed.interiorLength).append ih
    rwa [List.cons_append, List.append_assoc, List.singleton_append] at happend

end Nested

end TextGrammar
