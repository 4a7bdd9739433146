-- Markers in running text: "a(n)" stands for the article that the next word takes, and "(s)"
-- after a word makes it plural unless the number before it is one.
import TextGrammar.Double.Decimal
import TextGrammar.Inflection.Inflector

namespace TextGrammar

namespace Inline

/-! ## Articles -/

/-- The article for a marker with the letters `a` and `n`, which carry its capitals, before the
text `rest`. Where no word follows it is "a". -/
def articleFor (inflector : Inflector) (a n : Char) (rest : List Char) : List Char :=
  let next := (rest.dropWhile Unicode.isWhiteSpace).takeWhile Unicode.isAlphanumeric
  let article := if next.isEmpty then Article.a else inflector.article next
  let letters := if Unicode.isUppercase a then capitalize article.letters else article.letters
  if Unicode.isUppercase n then Unicode.upperText letters else letters

/-- Puts articles for their markers. A marker does not start inside a word; `inWord` says that a
letter or number stands in front of the text. -/
def resolveArticles (inflector : Inflector) (inWord : Bool) : List Char → List Char
  | [] => []
  | a :: '(' :: n :: ')' :: rest =>
    if a.toLower == 'a' && n.toLower == 'n' && !inWord then
      articleFor inflector a n rest ++ resolveArticles inflector false rest
    else
      a :: resolveArticles inflector (Unicode.isAlphanumeric a) ('(' :: n :: ')' :: rest)
  | a :: cs => a :: resolveArticles inflector (Unicode.isAlphanumeric a) cs
termination_by cs => cs.length

/-! ## Plurals -/

/-- The number nearest to the end of a text that is given from its end: the digits and points
that the last digit ends. -/
def numberBefore? (text : List Char) : Option Double :=
  let run := (text.dropWhile fun c => !c.isDigit).takeWhile fun c => c.isDigit || c == '.'
  let number := run.reverse.dropWhile (· == '.')
  if isDecimal number then some (.ofDecimal false number 0) else none

/-- The number nearest to the end of a text that is given from its end is one. -/
def countsOne (text : List Char) : Bool := (numberBefore? text).any (·.numEq .one)

/-- Puts plurals for their markers. `before` is what was written up to the last marker, and
`since` what was read after it, both from the end. A marker after no word leaves its letter. -/
def resolvePlurals (inflector : Inflector) (before since : List Char) : List Char → List Char
  | [] => (since ++ before).reverse
  | '(' :: letter :: ')' :: rest =>
    if letter == 's' || letter == 'S' then
      let word := (since.takeWhile Unicode.isAlphabetic).reverse
      let before := since.dropWhile Unicode.isAlphabetic ++ before
      let written :=
        if word.isEmpty then [letter]
        else if countsOne before then word
        else inflector.plural word
      resolvePlurals inflector (written.reverse ++ before) [] rest
    else resolvePlurals inflector before ('(' :: since) (letter :: ')' :: rest)
  | c :: cs => resolvePlurals inflector before (c :: since) cs
termination_by cs => cs.length

/-! ## Both -/

/-- Resolves the markers of a text, articles first. -/
def resolve (inflector : Inflector) (text : List Char) : List Char :=
  if text.contains '(' then
    resolvePlurals inflector [] [] (resolveArticles inflector false text)
  else text

end Inline

end TextGrammar
