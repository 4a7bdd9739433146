-- The law of layout: blank lines, comments, white space at the end of a line and the kind of line
-- ends mean nothing. What a source compiles to depends on what its lines are for, and on their
-- numbers only in the numbers that it gives back.
import Mathlib.Logic.Relation
import TextGrammar.Proofs.PrintedSources

namespace TextGrammar

/-! ## Line ends -/

/-- A property of all texts, line by line: it holds of a text without line feeds, and of a line and
its line feed in front of a text that it holds of. -/
theorem forall_by_line {p : List Char → Prop} (last : ∀ line, '\n' ∉ line → p line)
    (feed : ∀ line rest, '\n' ∉ line → p rest → p (line ++ '\n' :: rest)) (text : List Char) :
    p text := by
  by_cases h : '\n' ∈ text
  · obtain ⟨line, rest, rfl, hline⟩ := List.eq_append_cons_of_mem h
    exact feed line rest hline (forall_by_line last feed rest)
  · exact last text h
termination_by text.length
decreasing_by
  subst_vars
  simp only [List.length_append, List.length_cons]
  omega

/-- A line ends with its line feed, or the carriage return before it. -/
theorem rawLines_feed {line : List Char} (h : '\n' ∉ line) (rest : List Char) :
    ∃ raw, (line = raw ∨ line = raw ++ ['\r']) ∧
      rawLines (line ++ '\n' :: rest) = raw :: rawLines rest := by
  induction line with
  | nil => exact ⟨[], Or.inl rfl, by rw [List.nil_append, rawLines]⟩
  | cons c cs ih =>
    rw [List.mem_cons, not_or] at h
    by_cases hreturn : c = '\r' ∧ cs = []
    · obtain ⟨rfl, rfl⟩ := hreturn
      exact ⟨[], Or.inr rfl, by rw [List.cons_append, List.nil_append, rawLines]⟩
    · obtain ⟨raw, hraw, hlines⟩ := ih h.2
      refine ⟨c :: raw, ?_, ?_⟩
      · rcases hraw with rfl | rfl
        · exact Or.inl rfl
        · exact Or.inr rfl
      · rw [List.cons_append, rawLines_cons (Ne.symm h.1), hlines]
        rintro rfl hhead
        cases cs with
        | nil => exact hreturn ⟨rfl, rfl⟩
        | cons d cs =>
          cases hhead
          exact h.2 List.mem_cons_self

/-- The last line needs no line feed. -/
theorem rawLines_last {line : List Char} (h : '\n' ∉ line) (hne : line ≠ []) :
    rawLines line = [line] := by
  induction line with
  | nil => exact absurd rfl hne
  | cons c cs ih =>
    rw [List.mem_cons, not_or] at h
    rw [rawLines_cons (Ne.symm h.1)]
    · cases cs with
      | nil => rfl
      | cons d cs => rw [ih h.2 (List.cons_ne_nil d cs)]
    · rintro rfl hhead
      exact h.2 (List.mem_of_head? hhead)

/-! ## What is left of a line -/

/-- Whether the character behind the text would be escaped, when no comment has started in it. -/
def openEscape? (escaped : Bool) : List Char → Option Bool
  | [] => some escaped
  | c :: cs =>
    if escaped then openEscape? false cs
    else if c = commentMark then none
    else openEscape? (c == escapeChar) cs

/-- An escape character at the end of the line waits for the character that it escapes. -/
def EscapePending (line : List Char) : Prop := openEscape? false line = some true

instance : DecidablePred EscapePending := fun _ => inferInstanceAs (Decidable (_ = _))

theorem cutComment_append (escaped : Bool) (a b : List Char) :
    cutComment escaped (a ++ b) =
      match openEscape? escaped a with
      | some pending => a ++ cutComment pending b
      | none => cutComment escaped a := by
  fun_induction openEscape? escaped a with
  | case1 escaped => rfl
  | case2 c cs ih =>
    rw [List.cons_append, cutComment, if_pos rfl, ih]
    cases openEscape? false cs with
    | none => rw [cutComment, if_pos rfl]
    | some pending => rfl
  | case3 escaped cs hescaped =>
    rw [List.cons_append, cutComment, if_neg hescaped, if_pos rfl, cutComment, if_neg hescaped,
      if_pos rfl]
  | case4 escaped c cs hescaped hmark ih =>
    rw [List.cons_append, cutComment, if_neg hescaped, if_neg hmark, ih]
    cases openEscape? (c == escapeChar) cs with
    | none => rw [cutComment, if_neg hescaped, if_neg hmark]
    | some pending => rfl

theorem cutComment_of_open {escaped pending : Bool} {cs : List Char}
    (h : openEscape? escaped cs = some pending) : cutComment escaped cs = cs := by
  have happend := cutComment_append escaped cs []
  rw [List.append_nil, h] at happend
  exact happend.trans (List.append_nil cs)

/-- White space holds neither a comment mark nor an escape character. -/
theorem openEscape?_space {space : List Char} (h : space.all Unicode.isWhiteSpace = true)
    (escaped : Bool) : openEscape? escaped space = some (escaped && space.isEmpty) := by
  induction space generalizing escaped with
  | nil => rw [openEscape?, List.isEmpty_nil, Bool.and_true]
  | cons c cs ih =>
    rw [List.all_cons, Bool.and_eq_true] at h
    have hmark : c ≠ commentMark := by
      rintro rfl
      exact absurd h.1 (by decide)
    have hescape : (c == escapeChar) = false := by
      rw [beq_eq_false_iff_ne]
      rintro rfl
      exact absurd h.1 (by decide)
    rw [openEscape?, if_neg hmark, hescape, ih h.2, ite_self, List.isEmpty_cons, Bool.and_false,
      Bool.false_and]

theorem trimEnd_append_space {space : List Char} (h : space.all Unicode.isWhiteSpace = true)
    (cs : List Char) : trimEnd (cs ++ space) = trimEnd cs := by
  rw [trimEnd, List.reverse_append, List.dropWhile_append_of_pos, trimEnd]
  intro c hc
  exact List.all_eq_true.mp h c (List.mem_reverse.mp hc)

/-- What a line is for follows from what is left of it when its comment is cut and its end is
trimmed. -/
theorem ofRaw?_congr {a b : List Char}
    (h : trimEnd (stripComment a) = trimEnd (stripComment b)) :
    LineKind.ofRaw? a = LineKind.ofRaw? b := by
  rw [LineKind.ofRaw?, LineKind.ofRaw?, h]

/-- White space at the end of a line means nothing, even where an escape character waits. -/
theorem ofRaw?_append_space {space : List Char} (h : space.all Unicode.isWhiteSpace = true)
    (line : List Char) : LineKind.ofRaw? (line ++ space) = LineKind.ofRaw? line := by
  refine ofRaw?_congr ?_
  rw [stripComment, stripComment, cutComment_append]
  cases hopen : openEscape? false line with
  | none => rfl
  | some pending =>
    dsimp only
    rw [cutComment_of_open (openEscape?_space h pending), trimEnd_append_space h,
      cutComment_of_open hopen]

/-- A comment at the end of a line means nothing, unless its mark would be escaped. -/
theorem ofRaw?_append_comment {line : List Char} (h : ¬EscapePending line) (comment : List Char) :
    LineKind.ofRaw? (line ++ commentMark :: comment) = LineKind.ofRaw? line := by
  refine ofRaw?_congr (congrArg trimEnd ?_)
  rw [stripComment, stripComment, cutComment_append]
  cases hopen : openEscape? false line with
  | none => rfl
  | some pending =>
    cases pending with
    | true => exact absurd hopen h
    | false => rw [cutComment_of_open hopen]; exact List.append_nil line

theorem ofRaw?_space {space : List Char} (h : space.all Unicode.isWhiteSpace = true) :
    LineKind.ofRaw? space = none :=
  ofRaw?_append_space h []

/-! ## What the lines of a text are for -/

/-- What the lines of a text are for, in order; those that mean nothing are left out. -/
def lineKinds (text : List Char) : List LineKind := (rawLines text).filterMap LineKind.ofRaw?

theorem filterMap_cons_toList {α β : Type} (f : α → Option β) (x : α) (xs : List α) :
    (x :: xs).filterMap f = (f x).toList ++ xs.filterMap f := by
  cases h : f x <;> simp [h]

theorem lineKinds_feed {line : List Char} (h : '\n' ∉ line) (rest : List Char) :
    lineKinds (line ++ '\n' :: rest) = (LineKind.ofRaw? line).toList ++ lineKinds rest := by
  obtain ⟨raw, hraw, hlines⟩ := rawLines_feed h rest
  have hkind : LineKind.ofRaw? raw = LineKind.ofRaw? line := by
    rcases hraw with rfl | rfl
    · rfl
    · exact (ofRaw?_append_space (by decide) raw).symm
  rw [lineKinds, hlines, filterMap_cons_toList, hkind, lineKinds]

theorem lineKinds_last {line : List Char} (h : '\n' ∉ line) :
    lineKinds line = (LineKind.ofRaw? line).toList := by
  by_cases hne : line = []
  · subst hne
    rfl
  · rw [lineKinds, rawLines_last h hne, filterMap_cons_toList, List.filterMap_nil,
      List.append_nil]

/-- The lines above a place where a line starts, and those below. -/
theorem lineKinds_append {above : List Char} (h : ∀ c ∈ above.getLast?, c = '\n')
    (below : List Char) : lineKinds (above ++ below) = lineKinds above ++ lineKinds below := by
  induction above using forall_by_line with
  | last line hline =>
    cases hlast : line.getLast? with
    | none =>
      rw [List.getLast?_eq_none_iff.mp hlast]
      rfl
    | some c =>
      cases h c hlast
      exact absurd (List.mem_of_getLast? hlast) hline
  | feed line rest hline ih =>
    have hrest : ∀ c ∈ rest.getLast?, c = '\n' := fun c hc =>
      h c (mem_getLast?_of_suffix ⟨line ++ ['\n'], by simp⟩ hc)
    rw [List.append_assoc, List.cons_append, lineKinds_feed hline, lineKinds_feed hline, ih hrest,
      List.append_assoc]

/-- A line feed behind a text ends its last line. -/
theorem lineKinds_append_feed (text rest : List Char) :
    lineKinds (text ++ '\n' :: rest) = lineKinds text ++ lineKinds rest := by
  induction text using forall_by_line with
  | last line hline => rw [lineKinds_feed hline, lineKinds_last hline]
  | feed line text hline ih =>
    rw [List.append_assoc, List.cons_append, lineKinds_feed hline, lineKinds_feed hline, ih,
      List.append_assoc]

/-- A line and the text from its end on. -/
theorem lineKinds_line {line below : List Char} (h : '\n' ∉ line)
    (hbelow : ∀ c ∈ below.head?, c = '\n') :
    lineKinds (line ++ below) = (LineKind.ofRaw? line).toList ++ lineKinds below.tail := by
  cases below with
  | nil => rw [List.append_nil, lineKinds_last h, List.tail_nil]; exact (List.append_nil _).symm
  | cons c below =>
    cases hbelow c rfl
    exact lineKinds_feed h below

/-! ## Numbers left out -/

/-- A symbol as if no source declared it. -/
def Symbol.unnumbered (symbol : Symbol) : Symbol := ⟨symbol.name, symbol.rules, 0⟩

/-- An error as if its line had no number. -/
def SyntaxError.unnumbered (error : SyntaxError) : SyntaxError := ⟨0, error.column, error.defect⟩

/-- A line, or the error that its indentation is, without its number. -/
def unnumberedLine : Except SyntaxError Line → Except SyntaxError Line
  | .ok line => .ok ⟨0, line.kind⟩
  | .error error => .error error.unnumbered

/-- An open block without the number of its heading. -/
def OpenBlock.unnumbered : OpenBlock → OpenBlock
  | .accepted symbol sawRule => .accepted symbol.unnumbered sawRule
  | block => block

namespace Draft

/-- A draft without the numbers of its headings. -/
def unnumbered (draft : Draft) : Draft :=
  ⟨draft.finished.map Symbol.unnumbered, draft.block.unnumbered⟩

/-- A draft and the errors that brought it about, without their numbers. -/
def unnumberedStep (step : Draft × List SyntaxError) : Draft × List SyntaxError :=
  (step.1.unnumbered, step.2.map SyntaxError.unnumbered)

theorem symbols_unnumbered (draft : Draft) :
    draft.unnumbered.symbols = draft.symbols.map Symbol.unnumbered := by
  obtain ⟨finished, block⟩ := draft
  cases block with
  | accepted symbol sawRule => simp [unnumbered, OpenBlock.unnumbered, symbols]
  | _ => rfl

theorem declares_unnumbered (draft : Draft) (name : String) :
    draft.unnumbered.declares name = draft.declares name := by
  rw [declares, symbols_unnumbered, List.any_map]
  rfl

theorem closingErrors_unnumbered (draft : Draft) :
    draft.unnumbered.closingErrors = draft.closingErrors.map SyntaxError.unnumbered := by
  obtain ⟨finished, block⟩ := draft
  cases block with
  | accepted symbol sawRule => cases sawRule <;> rfl
  | _ => rfl

theorem heading_unnumbered (draft : Draft) (number : Nat) (name : String) :
    draft.unnumbered.heading 0 name = unnumberedStep (draft.heading number name) := by
  rw [heading, heading, symbols_unnumbered, declares_unnumbered, closingErrors_unnumbered]
  cases isSymbolName name.toList with
  | false => simp [unnumberedStep, unnumbered, OpenBlock.unnumbered, SyntaxError.unnumbered]
  | true =>
    cases draft.declares name with
    | true => simp [unnumberedStep, unnumbered, OpenBlock.unnumbered, SyntaxError.unnumbered]
    | false => rfl

theorem rule_unnumbered (draft : Draft) (number indent : Nat) (text : String) :
    draft.unnumbered.rule 0 indent text = unnumberedStep (draft.rule number indent text) := by
  obtain ⟨finished, block⟩ := draft
  cases block with
  | nowhere => rfl
  | rejected =>
    unfold rule
    cases Rule.read (indent + 1) text.toList <;> rfl
  | accepted symbol sawRule =>
    unfold rule
    cases Rule.read (indent + 1) text.toList <;> rfl

/-- A step does what it does without the numbers. -/
theorem step_unnumbered (draft : Draft) (line : Except SyntaxError Line) :
    draft.unnumbered.step (unnumberedLine line) = unnumberedStep (draft.step line) := by
  cases line with
  | error error => rfl
  | ok line =>
    obtain ⟨number, kind⟩ := line
    cases kind with
    | heading name => exact heading_unnumbered draft number name
    | rule indent text => exact rule_unnumbered draft number indent text

theorem readAll_unnumbered (draft : Draft) (lines : List (Except SyntaxError Line)) :
    draft.unnumbered.readAll (lines.map unnumberedLine) =
      unnumberedStep (draft.readAll lines) := by
  induction lines generalizing draft with
  | nil => exact congrArg (draft.unnumbered, ·) (closingErrors_unnumbered draft)
  | cons line lines ih =>
    rw [List.map_cons, readAll, step_unnumbered, readAll]
    dsimp only [unnumberedStep]
    rw [ih]
    dsimp only [unnumberedStep]
    rw [List.map_append]

end Draft

theorem checkIndents_unnumbered (current : Option OpenSymbol) (lines : List Line) :
    checkIndents current (lines.map fun line => ⟨0, line.kind⟩) =
      (checkIndents current lines).map unnumberedLine := by
  induction lines generalizing current with
  | nil => rfl
  | cons line lines ih =>
    obtain ⟨number, kind⟩ := line
    cases kind with
    | heading name => exact congrArg (_ :: ·) (ih _)
    | rule indent text =>
      cases current with
      | none => exact congrArg (_ :: ·) (ih _)
      | some symbol =>
        obtain ⟨name, expected⟩ := symbol
        cases expected with
        | none => exact congrArg (_ :: ·) (ih _)
        | some expected =>
          simp only [List.map_cons, checkIndents, ih, List.cons.injEq, and_true]
          split <;> rfl

theorem ofRaw_unnumbered (number : Nat) (raws : List (List Char)) :
    (Line.ofRaw number raws).map (fun line => (⟨0, line.kind⟩ : Line)) =
      (raws.filterMap LineKind.ofRaw?).map (⟨0, ·⟩) := by
  induction raws generalizing number with
  | nil => rfl
  | cons raw raws ih =>
    rw [filterMap_cons_toList, Line.ofRaw]
    cases LineKind.ofRaw? raw with
    | none => exact ih _
    | some kind => exact congrArg (_ :: ·) (ih _)

/-- An answer without the numbers of its lines: the names of the symbols with their rules, or what
each error is and in which column. -/
def unnumberedAnswer : Except (List SyntaxError) Grammar →
    Except (List (Option Nat × SyntaxDefect)) (List (String × List Rule))
  | .ok g => .ok (g.symbols.map fun symbol => (symbol.name, symbol.rules))
  | .error errors => .error (errors.map fun error => (error.column, error.defect))

/-- Without the numbers, the answer follows from what the lines are for. -/
theorem unnumberedAnswer_validate (source : String) :
    unnumberedAnswer (Grammar.validate source) =
      match Draft.start.readAll (checkIndents none ((lineKinds source.toList).map (⟨0, ·⟩))) with
      | (draft, []) => .ok (draft.symbols.map fun symbol => (symbol.name, symbol.rules))
      | (_, errors) => .error (errors.map fun error => (error.column, error.defect)) := by
  have hlines : checkIndents none ((lineKinds source.toList).map (⟨0, ·⟩)) =
      (sourceLines source).map unnumberedLine := by
    rw [lineKinds, ← ofRaw_unnumbered 1, checkIndents_unnumbered]
    rfl
  have hstart : Draft.start = Draft.start.unnumbered := rfl
  rw [hlines, hstart, Draft.readAll_unnumbered, Grammar.validate]
  obtain ⟨draft, errors⟩ := Draft.start.readAll (sourceLines source)
  cases errors with
  | nil =>
    have hsymbols : draft.unnumbered.symbols.map (fun symbol => (symbol.name, symbol.rules)) =
        draft.symbols.map fun symbol => (symbol.name, symbol.rules) := by
      rw [Draft.symbols_unnumbered, List.map_map]
      rfl
    exact congrArg Except.ok hsymbols.symm
  | cons error errors =>
    have herrors : ((error :: errors).map SyntaxError.unnumbered).map
          (fun error => (error.column, error.defect)) =
        (error :: errors).map fun error => (error.column, error.defect) := by
      rw [List.map_map]
      rfl
    exact congrArg Except.error herrors.symm

/-! ## Edits -/

/-- The text with a carriage return before each line feed. -/
def withReturns (text : List Char) : List Char :=
  text.flatMap fun c => if c = '\n' then ['\r', '\n'] else [c]

/-- A line of white space, or one with a comment behind white space. -/
inductive Meaningless : List Char → Prop
  | blank {space : List Char} : space.all Unicode.isWhiteSpace = true → Meaningless space
  | comment {space : List Char} (comment : List Char) :
    space.all Unicode.isWhiteSpace = true → Meaningless (space ++ commentMark :: comment)

/-- A line of a text: the text above it, which is empty or ends with a line feed, the line itself,
the carriage return that may stand before its line feed, and the text from there on, which is empty
or starts with a line feed. -/
structure LineAt (above line ending below : List Char) : Prop where
  above : ∀ c ∈ above.getLast?, c = '\n'
  line : '\n' ∉ line
  ending : ending = [] ∨ ending = ['\r']
  below : ∀ c ∈ below.head?, c = '\n'

/-- One edit of the layout of a text. -/
inductive Relaid : List Char → List Char → Prop
  /-- A line that means nothing is put above a line. -/
  | insert {above line below : List Char} : (∀ c ∈ above.getLast?, c = '\n') → '\n' ∉ line →
    Meaningless line → Relaid (above ++ below) (above ++ (line ++ '\n' :: below))
  /-- A line that means nothing is put below the last line. -/
  | append {text line : List Char} : '\n' ∉ line → Meaningless line →
    Relaid text (text ++ '\n' :: line)
  /-- White space is put at the end of a line. -/
  | space {above line ending below space : List Char} : LineAt above line ending below →
    '\n' ∉ space → space.all Unicode.isWhiteSpace = true →
    Relaid (above ++ (line ++ ending ++ below)) (above ++ (line ++ space ++ ending ++ below))
  /-- A comment is put at the end of a line where no escape character waits. -/
  | comment {above line ending below comment : List Char} : LineAt above line ending below →
    '\n' ∉ comment → ¬EscapePending line →
    Relaid (above ++ (line ++ ending ++ below))
      (above ++ (line ++ commentMark :: comment ++ ending ++ below))
  /-- Each line feed gets a carriage return. -/
  | returns (text : List Char) : Relaid text (withReturns text)

theorem Meaningless.ofRaw? {line : List Char} (h : Meaningless line) :
    LineKind.ofRaw? line = none := by
  cases h with
  | blank hspace => exact ofRaw?_space hspace
  | @comment space comment hspace =>
    have hopen : ¬EscapePending space := by
      rw [EscapePending, openEscape?_space hspace, Bool.false_and]
      simp
    rw [ofRaw?_append_comment hopen, ofRaw?_space hspace]

theorem LineAt.lineKinds {above line ending below : List Char}
    (h : LineAt above line ending below) {text : List Char} (htext : '\n' ∉ text)
    (hkind : LineKind.ofRaw? text = LineKind.ofRaw? line) :
    lineKinds (above ++ (text ++ ending ++ below)) =
      lineKinds above ++ (LineKind.ofRaw? line).toList ++ lineKinds below.tail := by
  have hspace : ending.all Unicode.isWhiteSpace = true := by
    rcases h.ending with rfl | rfl <;> decide
  have hfeed : '\n' ∉ text ++ ending := by
    rw [List.mem_append, not_or]
    refine ⟨htext, ?_⟩
    rcases h.ending with rfl | rfl <;> decide
  rw [lineKinds_append h.above, lineKinds_line hfeed h.below, ofRaw?_append_space hspace, hkind,
    List.append_assoc]

theorem withReturns_last {line : List Char} (h : '\n' ∉ line) : withReturns line = line := by
  have hkept : withReturns line = line.flatMap fun c => [c] := by
    refine List.flatMap_congr fun c hc => if_neg ?_
    rintro rfl
    exact h hc
  rw [hkept, List.flatMap_singleton']

theorem withReturns_feed {line : List Char} (h : '\n' ∉ line) (rest : List Char) :
    withReturns (line ++ '\n' :: rest) = line ++ ['\r'] ++ '\n' :: withReturns rest := by
  have hline := withReturns_last h
  unfold withReturns at hline ⊢
  rw [List.flatMap_append, hline, List.flatMap_cons, if_pos rfl, List.append_assoc]
  rfl

/-- An edit of the layout leaves what the lines are for. -/
theorem lineKinds_relaid {source edited : List Char} (h : Relaid source edited) :
    lineKinds edited = lineKinds source := by
  cases h with
  | insert habove hline hnone =>
    rw [lineKinds_append habove, lineKinds_append habove, lineKinds_feed hline, hnone.ofRaw?]
    rfl
  | append hline hnone =>
    rw [lineKinds_append_feed, lineKinds_last hline, hnone.ofRaw?]
    exact List.append_nil _
  | @space above line ending below space hat hfeed hspace =>
    have htext : '\n' ∉ line ++ space := by
      rw [List.mem_append, not_or]
      exact ⟨hat.line, hfeed⟩
    rw [hat.lineKinds htext (ofRaw?_append_space hspace line), hat.lineKinds hat.line rfl]
  | @comment above line ending below comment hat hfeed hopen =>
    have htext : '\n' ∉ line ++ commentMark :: comment := by
      rw [List.mem_append, List.mem_cons]
      rintro (hmem | hmem | hmem)
      · exact hat.line hmem
      · exact absurd hmem (by decide)
      · exact hfeed hmem
    rw [hat.lineKinds htext (ofRaw?_append_comment hopen comment), hat.lineKinds hat.line rfl]
  | returns =>
    induction source using forall_by_line with
    | last line hline => rw [withReturns_last hline]
    | feed line rest hline ih =>
      have hfeed : '\n' ∉ line ++ ['\r'] := by
        rw [List.mem_append, not_or]
        exact ⟨hline, by decide⟩
      rw [withReturns_feed hline, lineKinds_feed hfeed, lineKinds_feed hline, ih,
        ofRaw?_append_space (by decide)]

/-- So do any number of edits. -/
theorem lineKinds_relaid_often {source edited : List Char}
    (h : Relation.ReflTransGen Relaid source edited) : lineKinds edited = lineKinds source := by
  induction h with
  | refl => rfl
  | tail _ hrelaid ih => rw [lineKinds_relaid hrelaid, ih]

/-! ## The law -/

/-- Layout means nothing. However often lines that are blank, or have no more than a comment on
them, are put between the lines of a source, white space at the end of a line, comments at the end of a
line where no escape character waits, or carriage returns before all line feeds, validation answers
the same but for the numbers of lines: symbols of the same names with the same rules in the same
order, or the same errors in the same columns in the same order. -/
theorem layout_means_nothing {source edited : String}
    (h : Relation.ReflTransGen Relaid source.toList edited.toList) :
    unnumberedAnswer (Grammar.validate edited) = unnumberedAnswer (Grammar.validate source) := by
  rw [unnumberedAnswer_validate, unnumberedAnswer_validate, lineKinds_relaid_often h]

/-- Pets, one of them out of line. -/
def petsSource : String := "pet\n  cat\\#1\n dog\n"

/-- The pets with a comment behind a mark that is escaped, with a line between, and with carriage
returns. -/
def petsRelaid : String := "pet\r\n\t# few\r\n  cat\\#1# one\r\n dog\r\n"

/-- The law at the pets: the dog is out of line in either layout. -/
theorem pets_may_be_relaid : Relation.ReflTransGen Relaid petsSource.toList petsRelaid.toList ∧
    unnumberedAnswer (Grammar.validate petsRelaid) =
      .error [(some 1, .badIndentation "pet" 2 1)] := by
  have hcomment : Relaid petsSource.toList "pet\n  cat\\#1# one\n dog\n".toList := by
    have hat : LineAt "pet\n".toList "  cat\\#1".toList [] "\n dog\n".toList :=
      ⟨by simp, by decide +kernel, Or.inl rfl, by simp⟩
    have hrelaid := @Relaid.comment _ _ _ _ " one".toList hat (by decide +kernel)
      (by decide +kernel)
    simpa [petsSource, commentMark] using hrelaid
  have hinsert : Relaid "pet\n  cat\\#1# one\n dog\n".toList
      "pet\n\t# few\n  cat\\#1# one\n dog\n".toList := by
    have hrelaid := @Relaid.insert "pet\n".toList ("\t".toList ++ commentMark :: " few".toList)
      "  cat\\#1# one\n dog\n".toList (by simp) (by decide +kernel)
      (.comment _ (by decide +kernel))
    simpa [commentMark] using hrelaid
  have hreturns : Relaid "pet\n\t# few\n  cat\\#1# one\n dog\n".toList petsRelaid.toList := by
    have hrelaid := Relaid.returns "pet\n\t# few\n  cat\\#1# one\n dog\n".toList
    simpa [withReturns, petsRelaid] using hrelaid
  have hedits : Relation.ReflTransGen Relaid petsSource.toList petsRelaid.toList :=
    .tail (.tail (.single hcomment) hinsert) hreturns
  have hcheck : (match Grammar.validate petsSource with
      | .ok _ => false
      | .error errors => decide (errors = [⟨3, some 1, .badIndentation "pet" 2 1⟩])) = true := by
    decide +kernel
  refine ⟨hedits, ?_⟩
  rw [layout_means_nothing hedits]
  cases hanswer : Grammar.validate petsSource with
  | ok g =>
    rw [hanswer] at hcheck
    cases hcheck
  | error errors =>
    rw [hanswer] at hcheck
    rw [of_decide_eq_true hcheck]
    rfl

end TextGrammar
