-- Capital letters: of a text, of each word of a text, and of a word after the pattern of another.
import TextGrammar.Unicode.Alphabetic
import TextGrammar.Unicode.FinalSigma

namespace TextGrammar

/-- A text with its first character in upper case. -/
def capitalize : List Char → List Char
  | [] => []
  | c :: cs => Unicode.upperChar c ++ cs

/-- A text with the first letter of each word in upper case and the others in lower case. An
apostrophe does not end a word. -/
def titleCase (atStart : Bool) : List Char → List Char
  | [] => []
  | c :: cs =>
    if Unicode.isAlphabetic c then
      (if atStart then Unicode.upperChar c else Unicode.lowerChar c) ++ titleCase false cs
    else c :: titleCase (c != '\'') cs

/-- A word with the capitals of `model`: all of them when `model` is more than one letter and
all capitals, the first when `model` starts with one. -/
def matchCapitals (model word : List Char) : List Char :=
  let letters := model.filter Unicode.isAlphabetic
  if letters.length > 1 && letters.all Unicode.isUppercase then Unicode.upperText word
  else if model.head?.any Unicode.isUppercase then capitalize word
  else word

end TextGrammar
