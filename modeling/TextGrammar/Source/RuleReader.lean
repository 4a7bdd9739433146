-- Rules read from their text. A rule is literal text and brackets, and at its end perhaps a
-- caret and a weight; inside brackets stands a reference or a choice between rules. The reader
-- of brackets is given the reader of the brackets one level further in, so that reading ends
-- with the levels that nesting may have.
import TextGrammar.Double.Decimal
import TextGrammar.Source.Bracket
import TextGrammar.Source.SymbolName

namespace TextGrammar

/-- A reader of what stands inside a bracket, given the column of the bracket. -/
abbrev BlockReader := (column : Nat) → (interior : List SourceChar) → Except Fault Segment

/-! ## Weights -/

/-- Reads what follows the caret in `column`: a decimal that is not negative and not too large,
with no escape in it and blanks around it. -/
def readWeight (column : Nat) (cs : List SourceChar) : Except Fault Double :=
  let token := trim (SourceChar.plain cs)
  let malformed : Except Fault Double := .error ⟨column, .malformedWeight (String.ofList token)⟩
  let negative := match token with
    | '-' :: magnitude => isDecimal magnitude
    | _ => false
  if cs.any (·.escaped) then malformed
  else if negative then .error ⟨column, .negativeWeight (String.ofList token)⟩
  else if isDecimal token then
    let weight := Double.ofDecimal false token 0
    if weight.isFinite then .ok weight else malformed
  else malformed

/-! ## Bodies -/

/-- What a rule's text says: segments, and the weight when it states one. -/
structure RuleBody where
  segments : List Segment
  weight : Option Double

/-- The rule that a body makes. -/
def RuleBody.rule (body : RuleBody) : Rule := ⟨body.segments, body.weight.getD defaultWeight⟩

/-- The segment that literal characters make; no characters make none. -/
def literalSegment (cs : List SourceChar) : List Segment :=
  if cs.isEmpty then [] else [.literal (SourceChar.text cs)]

/-- Reads a body that goes on after the literal characters `literal`, the last one first. Where
no weight may stand, a caret is out of place. -/
def readBody (readBlock : BlockReader) (weighted : Bool) (literal : List SourceChar) :
    List SourceChar → Except Fault RuleBody
  | [] => .ok ⟨literalSegment literal.reverse, none⟩
  | c :: cs =>
    if c.is '[' then do
      let inside ← interiorLength c cs
      let block ← readBlock c.column (cs.take inside)
      let body ← readBody readBlock weighted [] (cs.drop (inside + 1))
      .ok ⟨literalSegment literal.reverse ++ block :: body.segments, body.weight⟩
    else if c.is ']' then .error ⟨c.column, .unbalancedBracket ']'⟩
    else if c.is '^' then
      if weighted then do
        let weight ← readWeight c.column cs
        .ok ⟨literalSegment (SourceChar.trimEnd literal.reverse), some weight⟩
      else .error ⟨c.column, .unexpectedText (SourceChar.text (c :: cs))⟩
    else readBody readBlock weighted (c :: literal) cs
termination_by cs => cs.length
decreasing_by all_goals simp only [List.length_drop, List.length_cons]; omega

/-! ## References -/

/-- Reads the modifiers after a target: a point and a word for each. -/
def readModifiers : List SourceChar → Except Fault (List Modifier)
  | [] => .ok []
  | c :: cs =>
    if c.is '.' then
      let token := SourceChar.text (cs.takeWhile fun d => !d.is '.')
      match Modifier.ofToken? token with
      | some modifier =>
        (readModifiers (cs.dropWhile fun d => !d.is '.')).map (modifier :: ·)
      | none => .error ⟨c.column + 1, .unknownModifier token⟩
    else .error ⟨c.column, .unexpectedText (SourceChar.text (c :: cs))⟩
termination_by cs => cs.length
decreasing_by
  simp only [List.length_cons]
  exact Nat.lt_succ_of_le (List.dropWhile_sublist _).length_le

/-- Reads a bare word that stands in `column`. -/
def readWord (column : Nat) (word : List Char) : Except Fault Target :=
  match readRange word with
  | .range range => .ok (.range range)
  | .mixedCase => .error ⟨column, .invalidRange (String.ofList word)⟩
  | .noRange =>
    if isSymbolName word then .ok (.symbol (String.ofList word))
    else .error ⟨column, .invalidSymbolName (String.ofList word)⟩

/-- Reads the target that starts with the mark or word at `first`; also gives what follows. -/
def readTarget (readBlock : BlockReader) (first : SourceChar) (cs : List SourceChar) :
    Except Fault (Target × List SourceChar) :=
  if first.is '[' then do
    let inside ← interiorLength first cs
    let inner ← readBlock first.column (cs.take inside)
    .ok (.dereference inner, cs.drop (inside + 1))
  else if first.is '\'' then do
    let inside ← quotedLength first.column cs
    .ok (.quoted (SourceChar.text (cs.take inside)), cs.drop (inside + 1))
  else if first.is '"' then do
    let inside ← patternLength first.column cs
    let body ← readBody readBlock false [] (cs.take inside)
    .ok (.pattern body.segments, cs.drop (inside + 1))
  else do
    let word := (first :: cs).takeWhile fun c => !c.is '.'
    let target ← readWord first.column (SourceChar.plain word)
    .ok (target, (first :: cs).dropWhile fun c => !c.is '.')

/-- Reads a target and the modifiers after it. -/
def readReference (readBlock : BlockReader) (first : SourceChar) (cs : List SourceChar) :
    Except Fault Segment := do
  let (target, rest) ← readTarget readBlock first cs
  let modifiers ← readModifiers rest
  .ok (.reference target modifiers)

/-! ## Brackets -/

/-- Reads each branch of a choice as a body of its own. -/
def readChoice (readBlock : BlockReader) (branches : List (List SourceChar)) :
    Except Fault Segment := do
  let bodies ← branches.mapM (readBody readBlock true [])
  .ok (.choice (bodies.map RuleBody.rule))

/-- Reads what stands inside the bracket in `column`. Text in quotes is a reference if it can
be, for a bar may stand in the quotes; all else is a choice when it has bars. -/
def readBracket (readBlock : BlockReader) (column : Nat) (interior : List SourceChar) :
    Except Fault Segment :=
  match SourceChar.trimEnd (SourceChar.trimStart interior) with
  | [] => .error ⟨column, .emptyBracket⟩
  | first :: cs =>
    if first.is '\'' || first.is '"' then
      match readReference readBlock first cs with
      | .ok segment => .ok segment
      | .error fault => do
        match ← splitBars interior with
        | [_] => .error fault
        | branches => readChoice readBlock branches
    else do
      match ← splitBars interior with
      | [_] => readReference readBlock first cs
      | branches => readChoice readBlock branches

/-- How many brackets may stand around one another. -/
def nestingLimit : Nat := 128

/-- Reads what stands inside a bracket that has `levels - 1` levels of brackets to spare. -/
def readNested : (levels : Nat) → BlockReader
  | 0 => fun column _ => .error ⟨column, .nestingTooDeep nestingLimit⟩
  | levels + 1 => readBracket (readNested levels)

/-! ## Rules -/

/-- Reads a rule whose text starts in `column`. -/
def Rule.read (column : Nat) (cs : List Char) : Except Fault Rule := do
  let chars ← SourceChar.resolve column cs
  let body ← readBody (readNested nestingLimit) true [] chars
  .ok body.rule

/-- Reads a pattern: the text of a rule on a line of its own. -/
def Rule.ofPattern (pattern : String) : Except SyntaxError Rule :=
  (Rule.read 1 pattern.toList).mapError (Fault.onLine 1)

end TextGrammar
