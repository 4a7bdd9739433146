-- Where brackets and quotes close, and where the bars between the branches of a choice stand.
-- Brackets nest. A bracket whose first mark is a single quote holds quoted text, in which no
-- other mark counts until the quote closes.
import TextGrammar.Source.Char

namespace TextGrammar

/-! ## Closing brackets -/

/-- What the scan for a closing bracket has just passed. -/
inductive BracketScan where
  /-- Something after which a single quote stands for itself. -/
  | text
  /-- An opening bracket, with only blanks since; a single quote opens quoted text. -/
  | opened
  /-- A part of quoted text that opened in this column. -/
  | quoted (column : Nat)
deriving Repr, DecidableEq

/-- How many characters stand before the bracket that closes the one in `column`, with `inner`
brackets open between the two. -/
def closingBracket (column : Nat) : BracketScan → (inner : Nat) → List SourceChar →
    Except Fault Nat
  | .quoted quote, _, [] => .error ⟨quote, .unclosedQuote '\''⟩
  | _, _, [] => .error ⟨column, .unbalancedBracket '['⟩
  | .quoted quote, inner, c :: cs =>
    (closingBracket column (if c.is '\'' then .text else .quoted quote) inner cs).map (· + 1)
  | scan, inner, c :: cs =>
    if c.is '[' then (closingBracket column .opened (inner + 1) cs).map (· + 1)
    else if c.is ']' then
      match inner with
      | 0 => .ok 0
      | inner + 1 => (closingBracket column .text inner cs).map (· + 1)
    else
      let next :=
        if scan = .text then .text
        else if c.is '\'' then .quoted c.column
        else if c.isBlank then .opened
        else .text
      (closingBracket column next inner cs).map (· + 1)

/-- How many characters stand between an opening bracket and the one that closes it. -/
def interiorLength (bracket : SourceChar) (cs : List SourceChar) : Except Fault Nat :=
  closingBracket bracket.column .opened 0 cs

/-! ## Closing quotes -/

/-- How many characters stand before the single quote that closes the one in `column`. -/
def quotedLength (column : Nat) : List SourceChar → Except Fault Nat
  | [] => .error ⟨column, .unclosedQuote '\''⟩
  | c :: cs => if c.is '\'' then .ok 0 else (quotedLength column cs).map (· + 1)

/-- How many characters stand before the double quote that closes the one in `column`. A quote
inside brackets does not close it. -/
def patternLength (column : Nat) : List SourceChar → Except Fault Nat
  | [] => .error ⟨column, .unclosedQuote '"'⟩
  | c :: cs =>
    if c.is '"' then .ok 0
    else if c.is '[' then do
      let inside ← interiorLength c cs
      let rest ← patternLength column (cs.drop (inside + 1))
      .ok (inside + 2 + rest)
    else (patternLength column cs).map (· + 1)
termination_by cs => cs.length
decreasing_by all_goals simp only [List.length_drop, List.length_cons]; omega

/-! ## Bars -/

/-- Puts characters in front of the first branch. -/
def extendFirst (cs : List SourceChar) : List (List SourceChar) → List (List SourceChar)
  | [] => [cs]
  | branch :: branches => (cs ++ branch) :: branches

/-- The parts between the bars that stand outside all brackets; one part when there are none. -/
def splitBars : List SourceChar → Except Fault (List (List SourceChar))
  | [] => .ok [[]]
  | c :: cs =>
    if c.is '[' then do
      let inside ← interiorLength c cs
      let parts ← splitBars (cs.drop (inside + 1))
      .ok (extendFirst (c :: cs.take (inside + 1)) parts)
    else if c.is ']' then .error ⟨c.column, .unbalancedBracket ']'⟩
    else if c.is '|' then (splitBars cs).map ([] :: ·)
    else (splitBars cs).map (extendFirst [c])
termination_by cs => cs.length
decreasing_by all_goals simp only [List.length_drop, List.length_cons]; omega

end TextGrammar
