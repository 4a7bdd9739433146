-- Bars in quoted text. The search for bars knows no quotes, so of quoted text it takes brackets for
-- brackets and bars for bars. It finds nothing in it when the brackets close one another and all
-- bars stand between them, and only then.
import TextGrammar.Proofs.Spelling

namespace TextGrammar

open SourceChar

/-- In a text behind `depth` brackets that are open, all of these and no others are closed, and bars
stand in brackets only. -/
def isEnclosed : (depth : Nat) → List Char → Bool
  | depth, [] => depth == 0
  | depth, c :: cs =>
    if c = '[' then isEnclosed (depth + 1) cs
    else if c = ']' then
      match depth with
      | 0 => false
      | depth + 1 => isEnclosed depth cs
    else (c != '|' || depth != 0) && isEnclosed depth cs

/-! ## The characters of quoted text -/

/-- Characters as they stand between single quotes: no such quote is a mark, and all brackets and
bars are. -/
structure QuotedChars (cs : List SourceChar) : Prop where
  noQuote : ∀ c ∈ cs, c.is '\'' = false
  marks : ∀ c ∈ cs, ∀ mark ∈ barMarks, c.is mark = (c.char == mark)

namespace QuotedChars

variable {c : SourceChar} {cs : List SourceChar} {depth : Nat}

theorem of_subset {others : List SourceChar} (h : QuotedChars cs) (hsub : others ⊆ cs) :
    QuotedChars others :=
  ⟨fun c hc => h.noQuote c (hsub hc), fun c hc => h.marks c (hsub hc)⟩

theorem tail (h : QuotedChars (c :: cs)) : QuotedChars cs :=
  h.of_subset (List.subset_cons_self c cs)

/-- A mark is known by its character. -/
theorem char_eq_iff (h : QuotedChars (c :: cs)) {mark : Char} (hmark : mark ∈ barMarks) :
    c.char = mark ↔ c.is mark = true := by
  rw [h.marks c List.mem_cons_self mark hmark, beq_iff_eq]

theorem isEnclosed_open (h : QuotedChars (c :: cs)) (hc : c.is '[' = true) :
    isEnclosed depth (plain (c :: cs)) = isEnclosed (depth + 1) (plain cs) := by
  simp [plain, isEnclosed, (h.char_eq_iff (by decide)).mpr hc]

theorem isEnclosed_close (h : QuotedChars (c :: cs)) (hc : c.is ']' = true) :
    isEnclosed (depth + 1) (plain (c :: cs)) = isEnclosed depth (plain cs) := by
  simp [plain, isEnclosed, (h.char_eq_iff (by decide)).mpr hc]

theorem isEnclosed_close_none (h : QuotedChars (c :: cs)) (hc : c.is ']' = true) :
    isEnclosed 0 (plain (c :: cs)) = false := by
  simp [plain, isEnclosed, (h.char_eq_iff (by decide)).mpr hc]

theorem isEnclosed_bar (h : QuotedChars (c :: cs)) (hc : c.is '|' = true) :
    isEnclosed 0 (plain (c :: cs)) = false := by
  simp [plain, isEnclosed, (h.char_eq_iff (by decide)).mpr hc]

theorem char_ne (h : QuotedChars (c :: cs)) {mark : Char} (hmark : mark ∈ barMarks)
    (hc : ¬c.is mark = true) : c.char ≠ mark := fun heq => hc ((h.char_eq_iff hmark).mp heq)

theorem isEnclosed_inside (h : QuotedChars (c :: cs)) (hopen : ¬c.is '[' = true)
    (hclose : ¬c.is ']' = true) :
    isEnclosed (depth + 1) (plain (c :: cs)) = isEnclosed (depth + 1) (plain cs) := by
  simp [plain, isEnclosed, h.char_ne (by decide) hopen, h.char_ne (by decide) hclose]

theorem isEnclosed_outside (h : QuotedChars (c :: cs)) (hopen : ¬c.is '[' = true)
    (hclose : ¬c.is ']' = true) (hbar : ¬c.is '|' = true) :
    isEnclosed depth (plain (c :: cs)) = isEnclosed depth (plain cs) := by
  simp [plain, isEnclosed, h.char_ne (by decide) hopen, h.char_ne (by decide) hclose,
    h.char_ne (by decide) hbar]

end QuotedChars

theorem JustEscaped.quotedChars {text : List Char} {cs : List SourceChar}
    (h : JustEscaped ['\'', '\\'] text cs) : QuotedChars cs := by
  refine ⟨fun c hc => (h.escaped.stands c hc).noMark _ (by decide), fun c hc mark hmark => ?_⟩
  have hnone : ∀ mark ∈ barMarks, ¬(mark = '\n' ∨ mark = '\t' ∨ mark ∈ ['\'', '\\']) := by decide
  by_cases hchar : c.char = mark
  · have hescaped : c.escaped = false := Bool.eq_false_iff.mpr fun hescaped =>
      hnone mark hmark (hchar ▸ (h.escaped_iff c hc).mp hescaped)
    simp [SourceChar.is, hescaped]
  · simp [SourceChar.is, hchar]

/-! ## The scan for a closing bracket -/

/-- The scan for a closing bracket stops where the brackets that are open in the text are closed, if
there is such a place. -/
theorem isEnclosed_closingBracket (column inner : Nat) {scan : BracketScan}
    {cs : List SourceChar} (hscan : scan.outside = true) (h : QuotedChars cs) :
    isEnclosed (inner + 1) (plain cs) =
      match closingBracket column scan inner cs with
      | .ok n => isEnclosed 0 (plain (cs.drop (n + 1)))
      | .error _ => false := by
  fun_induction closingBracket column scan inner cs with
  | case1 => cases hscan
  | case2 => rfl
  | case3 => cases hscan
  | case4 scan inner c cs hscan' hopen ih =>
    rw [h.isEnclosed_open hopen, ih rfl h.tail]
    cases closingBracket column .opened (inner + 1) cs <;> rfl
  | case5 scan c cs hscan' hopen hclose =>
    rw [h.isEnclosed_close hclose]
    rfl
  | case6 scan c cs hscan' hopen hclose inner ih =>
    rw [h.isEnclosed_close hclose, ih rfl h.tail]
    cases closingBracket column .text inner cs <;> rfl
  | case7 scan inner c cs hscan' hopen hclose next ih =>
    -- No quote opens here.
    have hnext : (scan.next c).outside = true := by
      rw [BracketScan.next_eq_after (h.noQuote c List.mem_cons_self)]
      exact BracketScan.after_outside
    rw [h.isEnclosed_inside hopen hclose, ih hnext h.tail]
    cases closingBracket column next inner cs <;> rfl

/-! ## Texts that are not split -/

/-- The search for bars finds a single part. -/
def Unsplit (cs : List SourceChar) : Prop := ∃ part, splitBars cs = .ok [part]

section

variable {a b cs rest : List SourceChar} {c : SourceChar}

theorem Barless.unsplit (h : Barless cs) : Unsplit cs := ⟨cs, h.single⟩

/-- Text without bars in front makes no difference. -/
theorem Barless.unsplit_append_iff (h : Barless a) : Unsplit (a ++ b) ↔ Unsplit b := by
  unfold Unsplit
  rw [h b]
  cases hparts : splitBars b with
  | error fault => simp [Except.map]
  | ok parts =>
    obtain ⟨branch, branches, rfl⟩ := List.exists_cons_of_ne_nil (splitBars_parts hparts).1
    simp [Except.map, extendFirst]

/-- There is a part on either side of a bar. -/
theorem not_unsplit_bar (hc : c.is '|' = true) : ¬Unsplit (c :: cs) := by
  rintro ⟨part, hpart⟩
  have hopen := is_eq_false hc (by decide : '|' ≠ '[')
  have hclose := is_eq_false hc (by decide : '|' ≠ ']')
  rw [splitBars] at hpart
  simp only [hopen, hclose, hc, Bool.false_eq_true, if_false, if_true] at hpart
  obtain ⟨parts, hparts, heq⟩ := map_eq_ok.mp hpart
  exact (splitBars_parts hparts).1 (List.cons.inj heq).2

theorem not_unsplit_close (hc : c.is ']' = true) : ¬Unsplit (c :: cs) := by
  rintro ⟨part, hpart⟩
  have hopen := is_eq_false hc (by decide : ']' ≠ '[')
  rw [splitBars] at hpart
  simp only [hopen, hc, Bool.false_eq_true, if_false, if_true] at hpart
  cases hpart

/-- The search goes on behind the bracket that closes. -/
theorem unsplit_open_iff (hc : c.is '[' = true) :
    Unsplit (c :: cs) ↔ ∃ n, interiorLength c cs = .ok n ∧ Unsplit (cs.drop (n + 1)) := by
  cases hinside : interiorLength c cs with
  | error fault => simp [Unsplit, splitBars, hc, hinside, bind, Except.bind]
  | ok n =>
    obtain ⟨interior, closing, later, rfl, rfl, _, hclosed⟩ := exists_closed hinside
    have hblock := (Barless.block hc hclosed).unsplit_append_iff (b := later)
    rw [List.cons_append, List.append_assoc, List.singleton_append] at hblock
    simp [hblock]

/-- Of quoted text with nothing but words behind it, the search makes a single part when the text is
enclosed, and only then. -/
theorem unsplit_append_iff (hcs : QuotedChars cs)
    (hrest : ∀ c ∈ rest, ∀ mark ∈ barMarks, c.is mark = false) :
    Unsplit (cs ++ rest) ↔ isEnclosed 0 (plain cs) = true := by
  fun_induction splitBars cs with
  | case1 => exact iff_of_true (Barless.of_unmarked hrest).unsplit rfl
  | case2 c cs hopen ih =>
    have hscan := isEnclosed_closingBracket c.column 0
      (rfl : BracketScan.opened.outside = true) hcs.tail
    rw [hcs.isEnclosed_open hopen, hscan, List.cons_append, unsplit_open_iff hopen]
    -- The bracket is closed in the text or not at all.
    have hnone : ∀ d ∈ rest, d.is ']' = false := fun d hd => hrest d hd _ (by decide)
    cases hinside : closingBracket c.column .opened 0 cs with
    | error fault =>
      simp only [Bool.false_eq_true, iff_false]
      rintro ⟨n, hn, _⟩
      rw [closingBracket_of_append hnone hn] at hinside
      cases hinside
    | ok n =>
      obtain ⟨hlt, hwhole⟩ := closingBracket_append hinside rest
      have hdrop : (cs ++ rest).drop (n + 1) = cs.drop (n + 1) ++ rest :=
        List.drop_append_of_le_length hlt
      have hlater := ih n (hcs.tail.of_subset (List.drop_subset (n + 1) cs))
      simp [interiorLength, hwhole, hdrop, hlater]
  | case3 c cs hopen hclose =>
    rw [hcs.isEnclosed_close_none hclose]
    exact iff_of_false (not_unsplit_close hclose) Bool.false_ne_true
  | case4 c cs hopen hclose hbar ih =>
    rw [hcs.isEnclosed_bar hbar]
    exact iff_of_false (not_unsplit_bar hbar) Bool.false_ne_true
  | case5 c cs hopen hclose hbar ih =>
    have hmarks : ∀ mark ∈ barMarks, c.is mark = false := by simp [barMarks, hopen, hclose, hbar]
    rw [hcs.isEnclosed_outside hopen hclose hbar, ← ih hcs.tail]
    exact (Barless.cons hmarks .nil).unsplit_append_iff

end

end TextGrammar
