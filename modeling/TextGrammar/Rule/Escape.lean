-- Escapes: how a character that carries a meaning in a rule is written to stand for itself. The
-- escape character goes in front of it; line feeds and tabs have letters of their own.

namespace TextGrammar

/-- The character that takes the meaning from the one after it. -/
def escapeChar : Char := '\\'

/-- The characters that carry a meaning somewhere in a rule. -/
def specialChars : List Char := ['[', ']', '^', '|', '"', '\'', '\\', '#']

/-! ## Writing -/

/-- A character as it is written where the characters `specials` carry a meaning. -/
def escapeOne (specials : List Char) (c : Char) : List Char :=
  if c = '\n' then [escapeChar, 'n']
  else if c = '\t' then [escapeChar, 't']
  else if c ∈ specials then [escapeChar, c]
  else [c]

/-- A text as it is written where the characters `specials` carry a meaning. -/
def escapeText (specials : List Char) (text : String) : List Char :=
  text.toList.flatMap (escapeOne specials)

/-! ## Reading -/

/-- What the escape character and `c` after it stand for. -/
def escaped? (c : Char) : Option Char :=
  if c = 'n' then some '\n'
  else if c = 't' then some '\t'
  else if c ∈ specialChars then some c
  else none

end TextGrammar
