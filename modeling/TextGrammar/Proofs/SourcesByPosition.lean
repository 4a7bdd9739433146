-- Sources compiled by positions. A comment is cut off by its offset in bytes, the indentation of a
-- line is a difference of two lengths, and the symbol that is open is known by its position among
-- the symbols. No step is missing in either way of compiling, and each gives what it gives by the
-- outline of the source.
import TextGrammar.Proofs.ReadersByPosition
import TextGrammar.Source.Compiler

namespace TextGrammar

namespace ByPosition

open Attempt

/-! ## Lines -/

/-- The offset of the first comment mark that is not escaped, in a text that starts at an offset;
`escaped` says that the first character is. -/
def commentOffset? : (escaped : Bool) → (offset : Nat) → List Char → Option Nat
  | _, _, [] => none
  | escaped, offset, c :: cs =>
    if escaped then commentOffset? false (offset + c.utf8Size) cs
    else if c = escapeChar then commentOffset? true (offset + c.utf8Size) cs
    else if c = commentMark then some offset
    else commentOffset? false (offset + c.utf8Size) cs

/-- A line up to an offset, or all of it. -/
def upTo (line : List Char) : (offset : Option Nat) → Option (List Char)
  | some offset => cutBytes? line 0 offset
  | none => some line

/-- A line without its comment. -/
def stripComment (line : List Char) : Option (List Char) :=
  upTo line (commentOffset? false 0 line)

/-- What a raw line is for, if for anything. -/
def ofRaw? (raw : List Char) : Option (Option LineKind) := do
  let kept ← stripComment raw
  let content := trimEnd kept
  let body := trimStart content
  if body.isEmpty then some none
  else do
    let indent ← minus? content.length body.length
    if indent = 0 then some (some (.heading (String.ofList body)))
    else some (some (.rule indent (String.ofList body)))

/-- The lines that mean something, where the first raw line has the given number. -/
def ofRaw (number : Nat) : List (List Char) → Option (List Line)
  | [] => some []
  | raw :: raws => do
    let kind? ← ofRaw? raw
    let lines ← ofRaw (number + 1) raws
    match kind? with
    | some kind => some (⟨number, kind⟩ :: lines)
    | none => some lines

/-- The lines of a source that mean something. -/
def sourceLines (source : String) : Option (List (Except SyntaxError Line)) :=
  (ofRaw 1 (rawLines source.toList)).map (checkIndents none)

theorem upTo_commentOffset? (escaped : Bool) (before cs : List Char) :
    upTo (before ++ cs) (commentOffset? escaped (byteSize before) cs) =
      some (before ++ cutComment escaped cs) := by
  induction cs generalizing escaped before with
  | nil => rfl
  | cons c cs ih =>
    -- The character is kept, and the rest goes on behind it.
    have hkept (next : Bool) : upTo (before ++ c :: cs)
        (commentOffset? next (byteSize before + c.utf8Size) cs) =
          some (before ++ c :: cutComment next cs) := by
      have hrest := ih next (before ++ [c])
      rw [byteSize_append] at hrest
      simpa using hrest
    rw [commentOffset?, cutComment]
    cases escaped with
    | true => exact hkept false
    | false =>
      rw [if_neg Bool.false_ne_true, if_neg Bool.false_ne_true]
      by_cases hescape : c = escapeChar
      · rw [if_pos hescape, if_neg (by rw [hescape]; decide), beq_iff_eq.mpr hescape]
        exact hkept true
      rw [if_neg hescape, beq_eq_false_iff_ne.mpr hescape]
      by_cases hmark : c = commentMark
      · rw [if_pos hmark, if_pos hmark, List.append_nil]
        exact cutBytes?_before before (c :: cs)
      · rw [if_neg hmark, if_neg hmark]
        exact hkept false

theorem stripComment_eq (line : List Char) :
    stripComment line = some (TextGrammar.stripComment line) :=
  upTo_commentOffset? false [] line

theorem ofRaw?_eq (raw : List Char) : ofRaw? raw = some (LineKind.ofRaw? raw) := by
  have hle (cs : List Char) : (trimStart cs).length ≤ cs.length :=
    (List.dropWhile_sublist _).length_le
  rw [ofRaw?, stripComment_eq, LineKind.ofRaw?]
  dsimp only [Option.bind_eq_bind, Option.bind_some]
  rw [minus?_eq (hle _)]
  split
  · rfl
  · dsimp only [Option.bind_some]
    split <;> rfl

theorem ofRaw_eq (number : Nat) (raws : List (List Char)) :
    ofRaw number raws = some (Line.ofRaw number raws) := by
  induction raws generalizing number with
  | nil => rfl
  | cons raw raws ih =>
    rw [ofRaw, ofRaw?_eq, ih, Line.ofRaw]
    cases LineKind.ofRaw? raw <;> rfl

theorem sourceLines_eq (source : String) :
    sourceLines source = some (TextGrammar.sourceLines source) := by
  rw [sourceLines, ofRaw_eq]
  rfl

/-! ## Grammars in the making -/

/-- Where the rules on the coming lines belong: an open symbol is known by its position. -/
inductive OpenBlock where
  | nowhere
  | rejected
  | accepted (index : Nat)

/-- What has been compiled so far: the symbols, and whether a rule line has followed the last
heading. -/
structure Draft where
  symbols : List Symbol
  block : OpenBlock
  sawRule : Bool

namespace Draft

/-- Nothing compiled yet. -/
def start : Draft := ⟨[], .nowhere, false⟩

/-- The defect of the open block when it ends here. -/
def closingErrors (draft : Draft) : Option (List SyntaxError) :=
  match draft.block with
  | .accepted index => do
    let symbol ← draft.symbols[index]?
    some (if symbol.rules.isEmpty && !draft.sawRule then
      [⟨symbol.line, none, .emptySymbol symbol.name⟩] else [])
  | _ => some []

/-- Ends the open block and opens the one of a heading. -/
def heading (draft : Draft) (number : Nat) (name : String) : Option (Draft × List SyntaxError) := do
  let closing ← draft.closingErrors
  if !isSymbolName name.toList then
    some (⟨draft.symbols, .rejected, false⟩, closing ++ [⟨number, some 1, .invalidSymbolName name⟩])
  else if draft.symbols.any (·.name == name) then
    some (⟨draft.symbols, .rejected, false⟩, closing ++ [⟨number, some 1, .duplicateSymbol name⟩])
  else do
    let symbols := draft.symbols ++ [⟨name, [], number⟩]
    let index ← minus? symbols.length 1
    some (⟨symbols, .accepted index, false⟩, closing)

/-- Reads a rule into the open block. -/
def rule (draft : Draft) (number indent : Nat) (text : String) :
    Option (Draft × List SyntaxError) :=
  match draft.block with
  | .nowhere => some (draft, [⟨number, some (indent + 1), .ruleBeforeSymbol⟩])
  | block => do
    match ← (readRule (indent + 1) text.toList).run with
    | .error fault => some (⟨draft.symbols, block, true⟩, [fault.onLine number])
    | .ok rule =>
      match block with
      | .accepted index => do
        let symbol ← draft.symbols[index]?
        let symbols := draft.symbols.set index ⟨symbol.name, symbol.rules ++ [rule], symbol.line⟩
        some (⟨symbols, block, true⟩, [])
      | _ => some (⟨draft.symbols, block, true⟩, [])

/-- Reads one line, and gives the errors that it brings to light. -/
def step (draft : Draft) : Except SyntaxError Line → Option (Draft × List SyntaxError)
  | .error error => some (draft, [error])
  | .ok ⟨number, .heading name⟩ => draft.heading number name
  | .ok ⟨number, .rule indent text⟩ => draft.rule number indent text

/-- Reads lines to the first error, or to the end. -/
def readFirst (draft : Draft) : List (Except SyntaxError Line) → Option (Except SyntaxError Draft)
  | [] => do
    let errors ← draft.closingErrors
    if errors.isEmpty then some (.ok draft)
    else do
      let error ← errors[0]?
      some (.error error)
  | line :: lines => do
    let (next, errors) ← draft.step line
    if errors.isEmpty then next.readFirst lines
    else do
      let error ← errors[0]?
      some (.error error)

/-- Reads all lines and collects the errors. -/
def readAll (draft : Draft) : List (Except SyntaxError Line) → Option (Draft × List SyntaxError)
  | [] => do
    let errors ← draft.closingErrors
    some (draft, errors)
  | line :: lines => do
    let (next, errors) ← draft.step line
    let (last, later) ← next.readAll lines
    some (last, errors ++ later)

end Draft

/-! ## Compiling -/

/-- Compiles a source, stopping at its first defect. -/
def compile (source : String) : Option (Except SyntaxError Grammar) := do
  let lines ← sourceLines source
  let result ← Draft.start.readFirst lines
  some (result.map fun draft => ⟨draft.symbols⟩)

/-- Compiles a source, collecting all its defects in order. -/
def validate (source : String) : Option (Except (List SyntaxError) Grammar) := do
  let lines ← sourceLines source
  let (draft, errors) ← Draft.start.readAll lines
  if errors.isEmpty then some (.ok ⟨draft.symbols⟩) else some (.error errors)

/-! ## What compiling gives -/

/-- The draft by positions says what the other says. The open symbol is the last of its symbols, and
has no rule while no rule line has followed its heading. -/
inductive Says : Draft → TextGrammar.Draft → Prop
  | nowhere (symbols : List Symbol) (sawRule : Bool) :
    Says ⟨symbols, .nowhere, sawRule⟩ ⟨symbols, .nowhere⟩
  | rejected (symbols : List Symbol) (sawRule : Bool) :
    Says ⟨symbols, .rejected, sawRule⟩ ⟨symbols, .rejected⟩
  | accepted (finished : List Symbol) (symbol : Symbol) (sawRule : Bool)
      (empty : sawRule = false → symbol.rules = []) :
    Says ⟨finished ++ [symbol], .accepted finished.length, sawRule⟩
      ⟨finished, .accepted symbol sawRule⟩

/-- The step is not missing, and gives what says the same as the other, with the same errors. -/
def StepSays (step : Option (Draft × List SyntaxError))
    (other : TextGrammar.Draft × List SyntaxError) : Prop :=
  ∃ next, step = some (next, other.2) ∧ Says next other.1

section

variable {draft : Draft} {other : TextGrammar.Draft}

theorem Says.symbols (h : Says draft other) : draft.symbols = other.symbols := by
  cases h <;> rfl

theorem Says.closingErrors (h : Says draft other) :
    draft.closingErrors = some other.closingErrors := by
  cases h with
  | nowhere => rfl
  | rejected => rfl
  | accepted finished symbol sawRule hempty =>
    rw [Draft.closingErrors, TextGrammar.Draft.closingErrors.eq_def]
    dsimp only
    rw [List.getElem?_concat_length]
    cases sawRule with
    | true => simp
    | false => simp [hempty rfl]

theorem says_heading (h : Says draft other) (number : Nat) (name : String) :
    StepSays (draft.heading number name) (other.heading number name) := by
  rw [Draft.heading, h.closingErrors, h.symbols, TextGrammar.Draft.heading]
  dsimp only [Option.bind_eq_bind, Option.bind_some]
  rw [← TextGrammar.Draft.declares]
  split
  · exact ⟨_, rfl, .rejected _ _⟩
  split
  · exact ⟨_, rfl, .rejected _ _⟩
  · rw [List.length_append, List.length_singleton, minus?_succ]
    exact ⟨_, rfl, .accepted _ _ _ fun _ => rfl⟩

theorem says_rule (h : Says draft other) (number indent : Nat) (text : String) :
    StepSays (draft.rule number indent text) (other.rule number indent text) := by
  cases h with
  | nowhere => exact ⟨_, rfl, .nowhere _ _⟩
  | rejected =>
    rw [Draft.rule, readRule_eq, TextGrammar.Draft.rule]
    cases Rule.read (indent + 1) text.toList with
    | error fault => exact ⟨_, rfl, .rejected _ _⟩
    | ok rule => exact ⟨_, rfl, .rejected _ _⟩
  | accepted finished symbol sawRule hempty =>
    rw [Draft.rule, readRule_eq, TextGrammar.Draft.rule]
    cases Rule.read (indent + 1) text.toList with
    | error fault => exact ⟨_, rfl, .accepted finished symbol true Bool.noConfusion⟩
    | ok rule =>
      refine ⟨⟨finished ++ [⟨symbol.name, symbol.rules ++ [rule], symbol.line⟩],
        .accepted finished.length, true⟩, ?_,
        .accepted finished ⟨symbol.name, symbol.rules ++ [rule], symbol.line⟩ true
          Bool.noConfusion⟩
      have hset : (finished ++ [symbol]).set finished.length
          ⟨symbol.name, symbol.rules ++ [rule], symbol.line⟩ =
            finished ++ [⟨symbol.name, symbol.rules ++ [rule], symbol.line⟩] := by simp
      change (((finished ++ [symbol])[finished.length]?).bind fun symbol => _) = _
      rw [List.getElem?_concat_length, Option.bind_some, hset]
      rfl

theorem says_step (h : Says draft other) (line : Except SyntaxError Line) :
    StepSays (draft.step line) (other.step line) := by
  match line with
  | .error error => exact ⟨draft, rfl, h⟩
  | .ok ⟨number, .heading name⟩ => exact says_heading h number name
  | .ok ⟨number, .rule indent text⟩ => exact says_rule h number indent text

theorem says_readAll (h : Says draft other) (lines : List (Except SyntaxError Line)) :
    StepSays (draft.readAll lines) (other.readAll lines) := by
  induction lines generalizing draft other with
  | nil =>
    rw [Draft.readAll, h.closingErrors]
    exact ⟨draft, rfl, h⟩
  | cons line lines ih =>
    obtain ⟨next, hstep, hnext⟩ := says_step h line
    obtain ⟨last, hread, hlast⟩ := ih hnext
    refine ⟨last, ?_, hlast⟩
    rw [Draft.readAll, hstep]
    dsimp only [Option.bind_eq_bind, Option.bind_some]
    rw [hread]
    rfl

theorem says_readFirst (h : Says draft other) (lines : List (Except SyntaxError Line)) :
    ∃ result, draft.readFirst lines = some result ∧
      result.map Draft.symbols = (other.readFirst lines).map TextGrammar.Draft.symbols := by
  induction lines generalizing draft other with
  | nil =>
    rw [Draft.readFirst, h.closingErrors, TextGrammar.Draft.readFirst]
    cases other.closingErrors with
    | nil => exact ⟨_, rfl, congrArg Except.ok h.symbols⟩
    | cons error errors => exact ⟨_, rfl, rfl⟩
  | cons line lines ih =>
    obtain ⟨next, hstep, hnext⟩ := says_step h line
    rw [Draft.readFirst, hstep, TextGrammar.Draft.readFirst]
    cases hother : other.step line with
    | mk made errors =>
      rw [hother] at hnext
      cases errors with
      | nil => exact ih hnext
      | cons error errors => exact ⟨_, rfl, rfl⟩

end

theorem compile_eq (source : String) : compile source = some (Grammar.compile source) := by
  obtain ⟨result, hread, hresult⟩ := says_readFirst (.nowhere [] false)
    (TextGrammar.sourceLines source)
  have hread : Draft.start.readFirst (TextGrammar.sourceLines source) = some result := hread
  rw [compile, sourceLines_eq]
  dsimp only [Option.bind_eq_bind, Option.bind_some]
  rw [hread]
  refine congrArg some ?_
  -- Both grammars are made of the symbols of the drafts.
  calc result.map (fun draft => ⟨draft.symbols⟩)
    _ = (result.map Draft.symbols).map Grammar.mk := by cases result <;> rfl
    _ = ((TextGrammar.Draft.start.readFirst (TextGrammar.sourceLines source)).map
          TextGrammar.Draft.symbols).map Grammar.mk := by rw [hresult]; rfl
    _ = Grammar.compile source := by
      rw [Grammar.compile]
      cases TextGrammar.Draft.start.readFirst (TextGrammar.sourceLines source) <;> rfl

theorem validate_eq (source : String) : validate source = some (Grammar.validate source) := by
  obtain ⟨last, hread, hlast⟩ := says_readAll (.nowhere [] false) (TextGrammar.sourceLines source)
  have hread : Draft.start.readAll (TextGrammar.sourceLines source) = some (last,
      (TextGrammar.Draft.start.readAll (TextGrammar.sourceLines source)).2) := hread
  have hsymbols : last.symbols =
      (TextGrammar.Draft.start.readAll (TextGrammar.sourceLines source)).1.symbols := hlast.symbols
  rw [validate, sourceLines_eq, Grammar.validate]
  dsimp only [Option.bind_eq_bind, Option.bind_some]
  rw [hread, Option.bind_some]
  dsimp only
  rw [hsymbols]
  cases TextGrammar.Draft.start.readAll (TextGrammar.sourceLines source) with
  | mk draft errors => cases errors <;> rfl

end ByPosition

end TextGrammar
