-- The law of comments. The scan for a comment knows no more than whether the next character is
-- escaped; the reader of rules takes an escape two characters at a time, and refuses those that it
-- does not know. As far as the reader gets the two are in step, so a line is cut at the first
-- comment mark that the reader would take for one.
import TextGrammar.Proofs.FaultPlaces
import TextGrammar.Proofs.Layout

namespace TextGrammar

open SourceChar

/-! ## The scan and the reader in step -/

/-- The scan passes over the letter of any escape, also of one that the reader refuses. -/
theorem openEscape?_escape (letter : Char) (cs : List Char) :
    openEscape? false (escapeChar :: letter :: cs) = openEscape? false cs := by
  have hmark : escapeChar ≠ commentMark := by decide
  simp [openEscape?, hmark]

theorem openEscape?_cons {c : Char} (hc : c ≠ escapeChar) (cs : List Char) :
    openEscape? false (c :: cs) = if c = commentMark then none else openEscape? false cs := by
  rw [openEscape?, if_neg Bool.false_ne_true, beq_eq_false_iff_ne.mpr hc]

theorem openEscape?_append (escaped : Bool) (a b : List Char) :
    openEscape? escaped (a ++ b) = (openEscape? escaped a).bind (openEscape? · b) := by
  induction a generalizing escaped with
  | nil => rfl
  | cons c a ih =>
    rw [List.cons_append, openEscape?, openEscape?]
    split_ifs
    · exact ih false
    · rfl
    · exact ih _

section

variable {column : Nat} {cs : List Char} {chars : List SourceChar}

/-- Behind a text that is resolved no escape is open, and a comment has started in the text exactly
when the reader found a mark in it that is not escaped. -/
theorem openEscape?_of_resolve (h : resolve column cs = .ok chars) :
    openEscape? false cs = if chars.any (·.is commentMark) then none else some false := by
  -- The reader sets the pace: the scan takes two steps for an escape, and one for all else.
  fun_induction resolve column cs generalizing chars with
  | case1 =>
    cases h
    rfl
  | case2 => cases h
  | case3 column letter rest meant hmeant ih =>
    obtain ⟨tail, htail, rfl⟩ := map_eq_ok.mp h
    rw [openEscape?_escape, ih htail]
    rfl
  | case4 => cases h
  | case5 column c rest hc ih =>
    obtain ⟨tail, htail, rfl⟩ := map_eq_ok.mp h
    rw [openEscape?_cons hc, ih htail]
    by_cases hmark : c = commentMark <;> simp [SourceChar.is, hmark]

theorem openEscape?_of_unmarked (h : resolve column cs = .ok chars)
    (hnone : ∀ c ∈ chars, c.is commentMark = false) : openEscape? false cs = some false := by
  rw [openEscape?_of_resolve h, if_neg]
  simpa using hnone

/-- The fault of a text that leaves no escape open is a letter that the reader refuses, so it is
there whatever follows. -/
theorem resolve_append_of_error {fault : Fault} (hopen : openEscape? false cs = some false)
    (h : resolve column cs = .error fault) (rest : List Char) :
    resolve column (cs ++ rest) = .error fault := by
  fun_induction resolve column cs with
  | case1 => cases h
  | case2 =>
    -- The escape character at the end leaves its escape open.
    cases hopen
  | case3 column letter later meant hmeant ih =>
    rw [openEscape?_escape] at hopen
    rw [List.cons_append, List.cons_append, resolve_escape hmeant, ih hopen (map_eq_error.mp h)]
    rfl
  | case4 column letter later hnone =>
    cases h
    simp [resolve, hnone]
  | case5 column c later hc ih =>
    rw [openEscape?_cons hc] at hopen
    split_ifs at hopen
    rw [List.cons_append, resolve_cons hc, ih hopen (map_eq_error.mp h)]
    rfl

end

/-! ## Where the scan stops -/

section

variable {column : Nat} {front line : List Char} {cs before after : List SourceChar}

theorem stripComment_append (h : openEscape? false front = some false) (rest : List Char) :
    stripComment (front ++ rest) = front ++ stripComment rest := by
  unfold stripComment
  rw [cutComment_append, h]

theorem stripComment_mark (comment : List Char) : stripComment (commentMark :: comment) = [] := by
  simp [stripComment, cutComment]

/-- A comment starts at a mark, where no escape is open. -/
theorem exists_of_openEscape?_eq_none {escaped : Bool} {cs : List Char}
    (h : openEscape? escaped cs = none) : ∃ front comment,
      cs = front ++ commentMark :: comment ∧ openEscape? escaped front = some false := by
  fun_induction openEscape? escaped cs with
  | case1 => cases h
  | case2 c cs ih =>
    obtain ⟨front, comment, rfl, hfront⟩ := ih h
    exact ⟨c :: front, comment, rfl, hfront⟩
  | case3 escaped cs hescaped =>
    rw [Bool.not_eq_true] at hescaped
    subst hescaped
    exact ⟨[], cs, rfl, rfl⟩
  | case4 escaped c cs hescaped hmark ih =>
    obtain ⟨front, comment, rfl, hfront⟩ := ih h
    refine ⟨c :: front, comment, rfl, ?_⟩
    rwa [openEscape?, if_neg hescaped, if_neg hmark]

/-- The scan stops at the end of the line, or at a comment mark where no escape is open. -/
theorem stripComment_stops (line : List Char) :
    (stripComment line = line ∧ ∃ pending, openEscape? false line = some pending) ∨
      ∃ comment, line = stripComment line ++ commentMark :: comment ∧
        openEscape? false (stripComment line) = some false := by
  cases hopen : openEscape? false line with
  | some pending => exact Or.inl ⟨cutComment_of_open hopen, pending, rfl⟩
  | none =>
    obtain ⟨front, comment, rfl, hfront⟩ := exists_of_openEscape?_eq_none hopen
    have hstrip : stripComment (front ++ commentMark :: comment) = front := by
      rw [stripComment_append hfront, stripComment_mark, List.append_nil]
    rw [hstrip]
    exact Or.inr ⟨comment, rfl, hfront⟩

theorem exists_comment (h : stripComment line ≠ line) : ∃ comment,
    line = stripComment line ++ commentMark :: comment ∧
      openEscape? false (stripComment line) = some false := by
  rcases stripComment_stops line with ⟨heq, _⟩ | hmark
  · exact absurd heq h
  · exact hmark

/-- In what is left of a line, and in any front of it, the reader takes no mark for one. -/
theorem unmarked_of_isPrefix (hfront : front <+: stripComment line)
    (h : resolve column front = .ok cs) : ∀ c ∈ cs, c.is commentMark = false := by
  obtain ⟨rest, hrest⟩ := hfront
  have hopen : ∃ pending, openEscape? false (stripComment line) = some pending := by
    rcases stripComment_stops line with ⟨heq, hopen⟩ | ⟨_, _, hopen⟩
    · rwa [heq]
    · exact ⟨false, hopen⟩
  obtain ⟨pending, hopen⟩ := hopen
  rw [← hrest, openEscape?_append, openEscape?_of_resolve h] at hopen
  split_ifs at hopen with hany
  · cases hopen
  · simpa using hany

theorem stripComment_of_unmarked (h : resolve column front = .ok cs)
    (hnone : ∀ c ∈ cs, c.is commentMark = false) (rest : List Char) :
    stripComment (front ++ rest) = front ++ stripComment rest :=
  stripComment_append (openEscape?_of_unmarked h hnone) rest

/-- The line is cut in the column of the first mark that the reader takes for one. -/
theorem stripComment_of_marked {mark : SourceChar}
    (h : resolve column front = .ok (before ++ mark :: after))
    (hnone : ∀ c ∈ before, c.is commentMark = false) (hmark : mark.is commentMark = true)
    (rest : List Char) :
    stripComment (front ++ rest) = (front ++ rest).take (mark.column - column) := by
  obtain ⟨kept, others, rfl, hkept, hothers⟩ := exists_of_resolve_append h
  obtain ⟨hcolumn, _⟩ := exists_of_resolve_cons hothers
  obtain ⟨comment, rfl, _⟩ := exists_of_resolve_mark hmark hothers
  have hlength : mark.column - column = kept.length := by omega
  rw [hlength, List.append_assoc, List.take_left, stripComment_of_unmarked hkept hnone,
    List.cons_append, stripComment_mark, List.append_nil]

end

/-! ## Lines of rules -/

theorem exists_indentation (line : List Char) : ∃ space body, line = space ++ body ∧
    space.all Unicode.isWhiteSpace = true ∧ ∀ c ∈ body.head?, Unicode.isWhiteSpace c = false :=
  ⟨line.takeWhile Unicode.isWhiteSpace, trimStart line, List.takeWhile_append_dropWhile.symm,
    List.all_takeWhile, start_trimStart line⟩

/-- The text of a rule is the line behind its indentation, without the comment and without the white
space in front of that. -/
theorem text_of_ofRaw? {line : List Char} {indent : Nat} {text : String}
    (h : LineKind.ofRaw? line = some (.rule indent text)) :
    text.toList = trimEnd (stripComment (line.drop indent)) := by
  obtain ⟨space, body, rfl, hspace, hbody⟩ := exists_indentation line
  have hstrip : stripComment (space ++ body) = space ++ stripComment body :=
    stripComment_append (openEscape?_space hspace false) body
  rcases hkept : stripComment body with _ | ⟨c, cs⟩
  · -- A line of which no more than white space is left is no rule.
    have hblank : stripComment space = space := cutComment_of_open (openEscape?_space hspace false)
    have hsame : LineKind.ofRaw? (space ++ body) = LineKind.ofRaw? space := by
      apply ofRaw?_congr
      rw [hstrip, hkept, List.append_nil, hblank]
    rw [hsame, ofRaw?_space hspace] at h
    cases h
  · have hc : Unicode.isWhiteSpace c = false := by
      have hbegins : c :: cs <+: body := hkept ▸ cutComment_isPrefix false body
      exact hbody c (mem_head?_of_isPrefix hbegins rfl)
    have hleft : trimEnd (c :: cs) = c :: trimEnd cs := trimEnd_append_cons hc [] cs
    have hcontent : trimEnd (stripComment (space ++ body)) = space ++ c :: trimEnd cs := by
      rw [hstrip, hkept, trimEnd_append_cons hc]
    rw [ofRaw?_of_trimmed hcontent hspace (List.cons_ne_nil _ _) (by simpa using hc)] at h
    split_ifs at h
    · cases h
    · cases h
      rw [List.drop_left, hkept, hleft, String.toList_ofList]

/-! ## The law -/

/-- A line that starts in a column is cut at the first comment mark that the reader of rules would
take for one, were it given all of the line. -/
structure CutAtMark (column : Nat) (line left : List Char) : Prop where
  isPrefix : left <+: line
  /-- A mark stands behind what is left, unless that is the whole line. -/
  behind : left ≠ line → ∃ comment, line = left ++ commentMark :: comment
  /-- In what is left the reader takes no mark for one; -/
  unmarked : ∀ cs, resolve column left = .ok cs → ∀ c ∈ cs, c.is commentMark = false
  /-- behind it, it does. -/
  marked : ∀ cs, resolve column left = .ok cs → resolve column (left ++ [commentMark]) =
    .ok (cs ++ [⟨commentMark, false, column + left.length⟩])
  /-- If it does not get as far, that is not because the line was cut. -/
  faulty : left ≠ line → ∀ fault, resolve column left = .error fault →
    resolve column line = .error fault
  /-- However far it reads, the line is cut in the column of the first mark that it takes for one;
  if it finds none, all that it has read is left. -/
  first : ∀ front rest cs, line = front ++ rest → resolve column front = .ok cs →
    match cs.find? (·.is commentMark) with
    | some mark => left = line.take (mark.column - column)
    | none => front <+: left

theorem cutAtMark_stripComment (column : Nat) (line : List Char) :
    CutAtMark column line (stripComment line) where
  isPrefix := cutComment_isPrefix false line
  behind := by
    intro hne
    obtain ⟨comment, hline, _⟩ := exists_comment hne
    exact ⟨comment, hline⟩
  unmarked := fun cs => unmarked_of_isPrefix List.prefix_rfl
  marked := by
    intro cs hcs
    rw [resolve_append hcs, resolve_cons (by decide)]
    rfl
  faulty := by
    intro hne fault hfault
    obtain ⟨comment, hline, hopen⟩ := exists_comment hne
    rw [hline]
    exact resolve_append_of_error hopen hfault _
  first := by
    rintro front rest cs rfl hcs
    split
    · rename_i mark hfind
      obtain ⟨hmark, before, after, rfl, hnone⟩ := List.find?_eq_some_iff_append.mp hfind
      exact stripComment_of_marked hcs (by simpa using hnone) hmark rest
    · rename_i hfind
      rw [stripComment_of_unmarked hcs (by simpa using hfind)]
      exact List.prefix_append _ _

/-- A line is cut at the first comment mark that the reader of rules would take for one. So is what
stands behind the indentation of a rule; trimmed, it is the text in which the reader finds none. -/
theorem lines_are_cut_at_the_first_unescaped_mark (line : List Char) (column : Nat) :
    CutAtMark column line (stripComment line) ∧
      ∀ indent text, LineKind.ofRaw? line = some (.rule indent text) →
        text.toList = trimEnd (stripComment (line.drop indent)) ∧
        ∀ cs, resolve (indent + 1) text.toList = .ok cs → ∀ c ∈ cs, c.is commentMark = false := by
  refine ⟨cutAtMark_stripComment column line, ?_⟩
  intro indent text h
  have htext := text_of_ofRaw? h
  have hfront : text.toList <+: stripComment (line.drop indent) := htext ▸ trimEnd_isPrefix _
  exact ⟨htext, fun cs => unmarked_of_isPrefix hfront⟩

/-- A rule with an escaped comment mark in it. Its comment starts behind an escaped escape
character; in it are an escape that the reader refuses and another mark. -/
def rankedLine : List Char := "  rank \\#1 of \\\\# see \\q#2".toList

theorem ranked_line_is_cut_at_its_second_mark :
    LineKind.ofRaw? rankedLine = some (.rule 2 "rank \\#1 of \\\\") ∧
      trimEnd (stripComment (rankedLine.drop 2)) = "rank \\#1 of \\\\".toList ∧
      stripComment rankedLine ≠ rankedLine ∧
      (∃ comment, rankedLine = stripComment rankedLine ++ commentMark :: comment) ∧
      ∃ cs, resolve 1 (stripComment rankedLine) = .ok cs ∧
        (∀ c ∈ cs, c.is commentMark = false) ∧
        resolve 1 (stripComment rankedLine ++ [commentMark]) =
          .ok (cs ++ [⟨commentMark, false, 17⟩]) := by
  obtain ⟨hcut, hrules⟩ := lines_are_cut_at_the_first_unescaped_mark rankedLine 1
  have hrule : LineKind.ofRaw? rankedLine = some (.rule 2 "rank \\#1 of \\\\") := by decide +kernel
  have hne : stripComment rankedLine ≠ rankedLine := by decide +kernel
  have hlength : (stripComment rankedLine).length = 16 := by decide +kernel
  have hok : (resolve 1 (stripComment rankedLine)).isOk = true := by decide +kernel
  obtain ⟨cs, hcs⟩ := exists_of_isOk hok
  have hmarked := hcut.marked cs hcs
  rw [hlength] at hmarked
  exact ⟨hrule, (hrules 2 _ hrule).1.symm, hne, hcut.behind hne, cs, hcs, hcut.unmarked cs hcs,
    hmarked⟩

end TextGrammar
