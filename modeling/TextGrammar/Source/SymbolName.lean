-- What stands as a bare word at the head of a reference: the name of a symbol, or the two bounds
-- of a range. The shape of a range wins over that of a name.
import TextGrammar.Numeral
import TextGrammar.Rule.Basic
import TextGrammar.Unicode.Alphabetic

namespace TextGrammar

/-! ## Names -/

/-- A name is one or more letters, numbers, underscores and hyphens. -/
def isSymbolName (name : List Char) : Bool :=
  !name.isEmpty && name.all fun c => Unicode.isAlphanumeric c || c == '_' || c == '-'

/-! ## Ranges -/

/-- What a word is as a range. -/
inductive RangeShape where
  | range (range : DrawRange)
  /-- Two letters with a hyphen between them, one a capital and the other not. -/
  | mixedCase
  | noRange
deriving DecidableEq

/-- The range between two letters, in either order. -/
def letterRange (a b : Char) : RangeShape :=
  if a.isUpper != b.isUpper then .mixedCase
  else .range (if a ≤ b then .letter a b else .letter b a)

/-- The range between two numbers, in either order. -/
def numberRange (a b : Int64) : DrawRange := if a ≤ b then .number a b else .number b a

/-- Reads `before ++ word` as two numbers with a hyphen of `word` between them; of several such
hyphens the first. -/
def readNumbers? (before : List Char) : List Char → Option DrawRange
  | [] => none
  | c :: cs =>
    let here := if c = '-' then
        (readInt64? before).bind fun a => (readInt64? cs).map (numberRange a)
      else none
    here.or (readNumbers? (before ++ [c]) cs)

/-- What a word is as a range. Letters are those of ASCII. -/
def readRange (word : List Char) : RangeShape :=
  match word with
  | [a, '-', b] =>
    if a.isAlpha && b.isAlpha then letterRange a b
    else (readNumbers? [] word).elim .noRange .range
  | _ => (readNumbers? [] word).elim .noRange .range

end TextGrammar
