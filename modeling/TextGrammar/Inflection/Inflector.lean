-- Inflectors: what expansion asks of a language. One knows the usual exceptions of English, the
-- other goes by spelling alone.
import TextGrammar.Inflection.Article
import TextGrammar.Inflection.Ordinal
import TextGrammar.Inflection.Plural

namespace TextGrammar

/-- Ways to inflect a phrase. -/
structure Inflector where
  /-- The indefinite article in front of a phrase. -/
  article : List Char → Article
  /-- The plural of a phrase. -/
  plural : List Char → List Char
  /-- The ordinal of a number. -/
  ordinal : List Char → List Char

namespace Inflector

/-- English with its usual exceptions. -/
def english : Inflector := ⟨Article.ofPhrase, Plural.ofPhrase, Ordinal.ofText⟩

/-- English by spelling alone. -/
def bySpelling : Inflector := ⟨Article.ofSpelling, Plural.bySpelling, Ordinal.ofText⟩

end Inflector

/-- Which inflector is in use. -/
inductive InflectorKind where
  | full
  | fallback
deriving Repr, DecidableEq

namespace InflectorKind

/-- The inflector of a kind. -/
def inflector : InflectorKind → Inflector
  | full => .english
  | fallback => .bySpelling

/-- The name that settings give a kind. -/
def name : InflectorKind → String
  | full => "Full"
  | fallback => "Fallback"

/-- The kind that a name stands for. -/
def ofName? (name : String) : Option InflectorKind := [full, fallback].find? (·.name == name)

end InflectorKind

end TextGrammar
