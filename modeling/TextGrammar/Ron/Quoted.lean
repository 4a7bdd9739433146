-- Quoted text of the object notation: strings between double quotes, characters between single
-- ones, and raw strings, which hold no escapes. Written strings escape what has no mark of its
-- own; all escapes of the notation are read.
import TextGrammar.Unicode.Printable

namespace TextGrammar

namespace Ron

/-! ## Writing -/

/-- An escape by the code point in hexadecimal digits. -/
def codeEscape (c : Char) : List Char := ['\\', 'u', '\x7b'] ++ Nat.toDigits 16 c.toNat ++ ['\x7d']

/-- A character as it is written between double quotes. -/
def escapeChar (c : Char) : List Char :=
  if c = '\x00' then ['\\', '0']
  else if c = '\t' then ['\\', 't']
  else if c = '\r' then ['\\', 'r']
  else if c = '\n' then ['\\', 'n']
  else if c = '\'' || c = '"' || c = '\\' then ['\\', c]
  else if Unicode.isJoiningMark c || !Unicode.isPrintable c then codeEscape c
  else [c]

/-- A string with its quotes. -/
def writeString (text : List Char) : List Char := '"' :: text.flatMap escapeChar ++ ['"']

/-- A character with its quotes. -/
def writeChar (c : Char) : List Char :=
  if c = '\\' || c = '\'' then ['\'', '\\', c, '\''] else ['\'', c, '\'']

/-! ## Reading -/

/-- The value of a hexadecimal digit. -/
def hexValue? (c : Char) : Option Nat :=
  if c.isDigit then some (c.toNat - '0'.toNat)
  else if 'a' ≤ c ∧ c ≤ 'f' then some (c.toNat - 'a'.toNat + 10)
  else if 'A' ≤ c ∧ c ≤ 'F' then some (c.toNat - 'A'.toNat + 10)
  else none

/-- The number that hexadecimal digits spell. -/
def hexNumber? (digits : List Char) : Option Nat :=
  digits.foldlM (fun value c => (hexValue? c).map (16 * value + ·)) 0

/-- The character of a code point, if it has one. -/
def charOf? (code : Nat) : Option Char :=
  if code.isValidChar then some (Char.ofNat code) else none

/-- The character that an escape stands for, and how many characters it takes after the
backslash. -/
def readEscape : List Char → Option (Char × Nat)
  | '\'' :: _ => some ('\'', 1)
  | '"' :: _ => some ('"', 1)
  | '\\' :: _ => some ('\\', 1)
  | 'n' :: _ => some ('\n', 1)
  | 'r' :: _ => some ('\r', 1)
  | 't' :: _ => some ('\t', 1)
  | '0' :: _ => some ('\x00', 1)
  | 'x' :: a :: b :: _ => do
    let c ← (hexNumber? [a, b]).bind charOf?
    some (c, 3)
  | 'u' :: '\x7b' :: cs => do
    let digits := cs.takeWhile (· != '\x7d')
    if digits.isEmpty || digits.length > 6 || digits.length == cs.length then none
    else
      let c ← (hexNumber? digits).bind charOf?
      some (c, digits.length + 3)
  | _ => none

/-- Reads a string from behind its opening quote. -/
def readQuoted : List Char → Option (List Char × List Char)
  | [] => none
  | c :: cs =>
    if c = '"' then some ([], cs)
    else if c = '\\' then do
      let (meant, length) ← readEscape cs
      let (text, rest) ← readQuoted (cs.drop length)
      some (meant :: text, rest)
    else do
      let (text, rest) ← readQuoted cs
      some (c :: text, rest)
termination_by cs => cs.length
decreasing_by all_goals simp only [List.length_drop, List.length_cons]; omega

/-- Reads a raw string from behind its opening quote; as many hashes end it as began it. -/
def readRaw (hashes : Nat) : List Char → Option (List Char × List Char)
  | [] => none
  | c :: cs =>
    if c = '"' && cs.take hashes == List.replicate hashes '#' then some ([], cs.drop hashes)
    else (readRaw hashes cs).map fun (text, rest) => (c :: text, rest)

/-- Reads a string of either kind. -/
def readString : List Char → Option (List Char × List Char)
  | '"' :: cs => readQuoted cs
  | 'r' :: cs =>
    match cs.dropWhile (· == '#') with
    | '"' :: rest => readRaw (cs.takeWhile (· == '#')).length rest
    | _ => none
  | _ => none

/-- Reads a character. -/
def readChar : List Char → Option (Char × List Char)
  | '\'' :: '\\' :: cs => do
    let (c, length) ← readEscape cs
    match cs.drop length with
    | '\'' :: rest => some (c, rest)
    | _ => none
  | '\'' :: c :: '\'' :: rest => if c = '\'' then none else some (c, rest)
  | _ => none

end Ron

end TextGrammar
