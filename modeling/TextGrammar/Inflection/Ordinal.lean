-- Ordinals: the ending that turns a number in digits into its ordinal.
import TextGrammar.Unicode.WhiteSpace

namespace TextGrammar

namespace Ordinal

/-- The ending after digits, given from the last to the first. It goes by the last digit, but the
tens of eleven, twelve and thirteen take "th". -/
def ending : List Char → List Char
  | _ :: '1' :: _ => ['t', 'h']
  | '1' :: _ => ['s', 't']
  | '2' :: _ => ['n', 'd']
  | '3' :: _ => ['r', 'd']
  | _ => ['t', 'h']

/-- The ordinal of a number in digits, which may have minus signs and white space around it; any
other text takes "th". -/
def ofText (number : List Char) : List Char :=
  let digits := (trim number).dropWhile (· == '-')
  number ++ (if digits.all Char.isDigit then ending digits.reverse else ['t', 'h'])

end Ordinal

end TextGrammar
