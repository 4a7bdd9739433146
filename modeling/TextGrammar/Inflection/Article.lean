-- Indefinite articles: "a" before a consonant sound and "an" before a vowel sound.
import TextGrammar.Unicode.Alphabetic
import TextGrammar.Unicode.FinalSigma
import TextGrammar.Unicode.WhiteSpace

namespace TextGrammar

/-- The two forms of the indefinite article. -/
inductive Article where
  | a
  | an
deriving Repr, DecidableEq

namespace Article

/-- The article as text. -/
def letters : Article → List Char
  | a => ['a']
  | an => ['a', 'n']

/-- "An" if the condition holds. -/
def anIf (condition : Bool) : Article := if condition then an else a

/-- A word starts with one of several texts. -/
def startsWithAny (starts : List String) (word : List Char) : Bool :=
  starts.any fun start => start.toList.isPrefixOf word

/-- The vowels. -/
def vowels : List Char := ['a', 'e', 'i', 'o', 'u']

/-! ## By sound -/

/-- Starts with a vowel that is spoken with a consonant in front. -/
def consonantStarts : List String :=
  ["one", "once", "eu", "ewe", "uni", "use", "usu", "uti", "ute", "ura", "uri", "uro", "ubi",
    "uku", "ufo", "uvu", "ouija"]

/-- Starts that are among those and yet spoken with a vowel. -/
def vowelStarts : List String := ["unin", "unim", "unid", "unil", "unir"]

/-- Starts with a silent h. -/
def silentStarts : List String := ["hour", "honest", "honor", "honour", "heir", "herb"]

/-- The letters whose names start with a vowel sound. -/
def vowelLetters : List Char := "AEFHILMNORSX".toList

/-- The letters and digits of the first word of a phrase. -/
def firstWord (phrase : List Char) : List Char :=
  let word := (trimStart phrase).takeWhile fun c => !Unicode.isWhiteSpace c
  (word.dropWhile fun c => !Unicode.isAlphanumeric c).takeWhile Unicode.isAlphanumeric

/-- The article before a number in digits: eight, eleven, eighteen, eighty. What leads an eleven
or eighteen is told by the size of the word in bytes. -/
def ofNumber (word : List Char) : Article :=
  let size := (String.ofList word).utf8ByteSize
  anIf (word.head? == some '8' ||
    size % 3 == 2 && (['1', '1'].isPrefixOf word || ['1', '8'].isPrefixOf word))

/-- The article before a word: by exceptions first, then by its first letter. A letter by itself
is spoken by its name. -/
def ofWord (initial : Char) (word : List Char) : Article :=
  let lower := Unicode.lowerText word
  if startsWithAny vowelStarts lower then an
  else if startsWithAny consonantStarts lower then a
  else if startsWithAny silentStarts lower then an
  else if (String.ofList lower).utf8ByteSize == 1 then anIf (vowelLetters.contains initial.toUpper)
  else anIf (lower.head?.any vowels.contains)

/-- The article before a phrase. A word in capitals is spoken letter by letter. -/
def ofPhrase (phrase : List Char) : Article :=
  let word := firstWord phrase
  match word with
  | [] => a
  | initial :: rest =>
    if initial.isDigit then ofNumber word
    else if !rest.isEmpty && word.all Char.isUpper then anIf (vowelLetters.contains initial)
    else ofWord initial word

/-! ## By spelling -/

/-- The article by the first letter alone. -/
def ofSpelling (phrase : List Char) : Article :=
  anIf ((trimStart phrase).head?.any fun c => vowels.contains c.toLower)

end Article

end TextGrammar
