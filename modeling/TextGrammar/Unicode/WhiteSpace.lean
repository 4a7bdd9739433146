-- The White_Space property: what separates words, indents lines and is trimmed.
import TextGrammar.Unicode.Ranges

namespace TextGrammar.Unicode

/-- The characters with the White_Space property. -/
def whiteSpaceRanges : List (Nat × Nat) :=
  [(0x9, 0xD), (0x20, 0x20), (0x85, 0x85), (0xA0, 0xA0), (0x1680, 0x1680), (0x2000, 0x200A),
    (0x2028, 0x2029), (0x202F, 0x202F), (0x205F, 0x205F), (0x3000, 0x3000)]

/-- White space: the blank, the line and tab controls, and the spaces of other scripts. -/
def isWhiteSpace (c : Char) : Bool := inRanges whiteSpaceRanges c

end TextGrammar.Unicode

namespace TextGrammar

/-- A text without the white space at its start. -/
def trimStart (cs : List Char) : List Char := cs.dropWhile Unicode.isWhiteSpace

/-- A text without the white space at its end. -/
def trimEnd (cs : List Char) : List Char := (cs.reverse.dropWhile Unicode.isWhiteSpace).reverse

/-- A text without the white space at either end. -/
def trim (cs : List Char) : List Char := trimEnd (trimStart cs)

end TextGrammar
