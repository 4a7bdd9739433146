-- The small parts of the object notation: blanks and comments, names, and numbers. Each function
-- reads from the start of a text, and gives what it read and the rest.
import TextGrammar.Double.Decimal
import TextGrammar.Ron.Quoted

namespace TextGrammar

namespace Ron

/-! ## Blanks and comments -/

/-- A blank, a tab, or the end of a line. -/
def isBlank (c : Char) : Bool := c == ' ' || c == '\t' || c == '\n' || c == '\r'

/-- Where a scan over blanks and comments stands. -/
inductive BlankScan where
  | between
  /-- In a comment that ends with its line. -/
  | line
  /-- In a comment with this many comments around it that ends with a mark. -/
  | block (outer : Nat)
deriving DecidableEq

/-- The text behind blanks and comments, unless a comment is not closed. -/
def skipBlanksFrom : BlankScan → List Char → Option (List Char)
  | .block _, [] => none
  | _, [] => some []
  | .between, '/' :: '/' :: cs => skipBlanksFrom .line cs
  | .between, '/' :: '*' :: cs => skipBlanksFrom (.block 0) cs
  | .between, c :: cs =>
    if isBlank c then skipBlanksFrom .between cs
    else if c = '/' then none
    else some (c :: cs)
  | .line, c :: cs => skipBlanksFrom (if c = '\n' then .between else .line) cs
  | .block outer, '/' :: '*' :: cs => skipBlanksFrom (.block (outer + 1)) cs
  | .block 0, '*' :: '/' :: cs => skipBlanksFrom .between cs
  | .block (outer + 1), '*' :: '/' :: cs => skipBlanksFrom (.block outer) cs
  | .block outer, _ :: cs => skipBlanksFrom (.block outer) cs

/-! ## Names -/

/-- May start a name. -/
def startsName (c : Char) : Bool := c.isAlpha || c == '_'

/-- May stand in a name. -/
def isNameChar (c : Char) : Bool := c.isAlphanum || c == '_'

/-- May stand in a name that is marked as raw. -/
def isRawNameChar (c : Char) : Bool := isNameChar c || c == '.' || c == '+' || c == '-'

/-- Reads a name. One that could go on as a raw name must be marked as such. -/
def readName : List Char → Option (List Char × List Char)
  | ['r'] => none
  | 'r' :: '"' :: _ => none
  | 'r' :: '#' :: cs =>
    let name := cs.takeWhile isRawNameChar
    if name.isEmpty then none else some (name, cs.drop name.length)
  | cs =>
    let name := cs.takeWhile isNameChar
    let rest := cs.drop name.length
    if !cs.head?.any startsName || rest.head?.any isRawNameChar then none else some (name, rest)

/-- The text behind `word`, when it starts with that. -/
def dropWord? (word cs : List Char) : Option (List Char) :=
  if word.isPrefixOf cs then some (cs.drop word.length) else none

/-- The text behind the name `name`, when it starts with just that name. -/
def dropName? (name cs : List Char) : Option (List Char) :=
  (dropWord? name cs).filter fun rest => !rest.head?.any isNameChar

/-! ## Numbers -/

/-- May stand in a whole number. -/
def isDigitChar (c : Char) : Bool := (hexValue? c).isSome || c == '_'

/-- The value of digits of a base, underscores left out. -/
def numberIn? (base : Nat) (digits : List Char) : Option Nat :=
  (digits.filter (· != '_')).foldlM (fun value c => do
    let digit ← hexValue? c
    if digit < base then some (base * value + digit) else none) 0

/-- Reads the digits of a number in a base. -/
def readDigits (base : Nat) (cs : List Char) : Option (Nat × List Char) :=
  let digits := cs.takeWhile isDigitChar
  if digits.isEmpty || digits.head? == some '_' then none
  else (numberIn? base digits).map (·, cs.drop digits.length)

/-- Reads a whole number without a sign: decimal, or after a mark of its base. -/
def readNatural : List Char → Option (Nat × List Char)
  | '0' :: 'x' :: cs => readDigits 16 cs
  | '0' :: 'b' :: cs => readDigits 2 cs
  | '0' :: 'o' :: cs => readDigits 8 cs
  | cs => readDigits 10 cs

/-- Reads a whole number with an optional sign. -/
def readInteger : List Char → Option (Int × List Char)
  | '+' :: cs => (readNatural cs).map fun (n, rest) => ((n : Int), rest)
  | '-' :: cs => (readNatural cs).map fun (n, rest) => (-(n : Int), rest)
  | cs => (readNatural cs).map fun (n, rest) => ((n : Int), rest)

/-- Reads a number of 64 bits without a sign. -/
def readWord (cs : List Char) : Option (Nat × List Char) :=
  (readNatural cs).filter fun (n, _) => n < UInt64.size

/-- Reads a number of 64 bits with a sign. -/
def readSigned (cs : List Char) : Option (Int64 × List Char) := do
  let (n, rest) ← readInteger cs
  if Int64.minValue.toInt ≤ n ∧ n ≤ Int64.maxValue.toInt then some (Int64.ofInt n, rest) else none

/-- The names of doubles that are not finite. -/
def floatNames : List (String × Double) :=
  [("inf", .infinite false), ("+inf", .infinite false), ("-inf", .infinite true),
    ("NaN", .nan), ("+NaN", .nan), ("-NaN", .nan)]

/-- Reads a double by its name. -/
def readFloatName (cs : List Char) : Option (Double × List Char) :=
  floatNames.findSome? fun (name, x) => (dropName? name.toList cs).map (x, ·)

/-- May stand in a double. -/
def isFloatChar (c : Char) : Bool :=
  c.isDigit || c == 'e' || c == 'E' || c == '.' || c == '+' || c == '-'

/-- Reads a double. -/
def readFloat (cs : List Char) : Option (Double × List Char) :=
  (readFloatName cs).or <|
    let text := cs.takeWhile isFloatChar
    let rest := cs.drop text.length
    if rest.head? == some '_' then none else (Double.read? text).map (·, rest)

/-- Reads a number of unknown kind: one that goes on as a double is one, and so is one that is
no number of 64 bits. -/
def skipNumber (cs : List Char) : Option (List Char) :=
  let body := match cs with
    | '+' :: digits => digits
    | '-' :: digits => digits
    | _ => cs
  let floatLength := (body.takeWhile fun c => isFloatChar c || c == '_').length
  let whole : Option (List Char) :=
    if floatLength > (body.takeWhile isDigitChar).length then none
    else if body.length < cs.length then (readSigned cs).map (·.2)
    else (readWord cs).map (·.2)
  whole.or ((readFloat cs).map (·.2))

end Ron

end TextGrammar
