-- Plurals: by the rules of English spelling with its usual exceptions, or by the last letters
-- alone. The plural of a phrase is that of its last word.
import TextGrammar.Inflection.Capitals

namespace TextGrammar

namespace Plural

/-! ## Words in lower case -/

/-- Words with plurals of their own. -/
def irregular : List (String × String) :=
  [("man", "men"), ("woman", "women"), ("child", "children"), ("person", "people"),
    ("mouse", "mice"), ("louse", "lice"), ("goose", "geese"), ("foot", "feet"),
    ("tooth", "teeth"), ("ox", "oxen"), ("die", "dice"), ("cactus", "cacti"),
    ("fungus", "fungi"), ("nucleus", "nuclei"), ("radius", "radii"), ("crisis", "crises"),
    ("analysis", "analyses"), ("thesis", "theses"), ("phenomenon", "phenomena"),
    ("criterion", "criteria"), ("datum", "data"), ("leaf", "leaves"), ("loaf", "loaves"),
    ("knife", "knives"), ("life", "lives"), ("wife", "wives"), ("wolf", "wolves"),
    ("half", "halves"), ("calf", "calves"), ("elf", "elves"), ("self", "selves"),
    ("shelf", "shelves"), ("thief", "thieves"), ("potato", "potatoes"), ("tomato", "tomatoes"),
    ("hero", "heroes"), ("echo", "echoes"), ("veto", "vetoes"), ("torpedo", "torpedoes"),
    ("quiz", "quizzes")]

/-- Words that are their own plural. -/
def uninflected : List String :=
  ["sheep", "fish", "deer", "moose", "series", "species", "aircraft", "news", "salmon", "trout",
    "bison", "swine", "information", "rice", "equipment"]

/-- What may stand in front of "man" and "woman" in a word that ends like them. -/
def manStems : List String := ["fire", "police", "chair", "sales", "fisher", "country"]

/-- A word without the ending `ending`, if it has it. -/
def dropEnding? (ending word : List Char) : Option (List Char) :=
  if ending.isSuffixOf word then some (word.take (word.length - ending.length)) else none

/-- The plural of a word that ends like "man" or "woman" after a known stem. -/
def ofMan? (single plural : String) (word : List Char) : Option (List Char) := do
  let stem ← dropEnding? single.toList word
  if manStems.contains (String.ofList stem) then some (stem ++ plural.toList) else none

/-- The endings that take "es". -/
def hissingEndings : List (List Char) := [['s'], ['x'], ['z'], ['c', 'h'], ['s', 'h']]

/-- Ends in a hissing sound. -/
def hisses (word : List Char) : Bool := hissingEndings.any (·.isSuffixOf word)

/-- The plural by the last letters: "es" after a hissing sound, "s" after any other. -/
def byEnding (word : List Char) : List Char :=
  word ++ (if hisses word then ['e', 's'] else ['s'])

/-- The plural of a word without exceptions; a "y" after anything but a vowel becomes "ies". -/
def regular (word : List Char) : List Char :=
  match word.reverse with
  | 'y' :: before :: stem =>
    if ['a', 'e', 'i', 'o', 'u'].contains before then byEnding word
    else (before :: stem).reverse ++ ['i', 'e', 's']
  | _ => byEnding word

/-- The plural of a word in lower case. -/
def ofLower (word : List Char) : List Char :=
  if uninflected.contains (String.ofList word) then word
  else
    match irregular.lookup (String.ofList word) with
    | some plural => plural.toList
    | none =>
      ((ofMan? "woman" "women" word).or (ofMan? "man" "men" word)).getD (regular word)

/-! ## Phrases -/

/-- A phrase up to its last word: all to its last character that is no letter. -/
def beforeLastWord (phrase : List Char) : List Char :=
  (phrase.reverse.dropWhile Unicode.isAlphabetic).reverse

/-- The last word of a phrase: the letters at its end. -/
def lastWord (phrase : List Char) : List Char :=
  (phrase.reverse.takeWhile Unicode.isAlphabetic).reverse

/-- The plural of a phrase. Its last word keeps its capitals. -/
def ofPhrase (phrase : List Char) : List Char :=
  let word := lastWord phrase
  if word.isEmpty then phrase
  else beforeLastWord phrase ++ matchCapitals word (ofLower (Unicode.lowerText word))

/-- The plural by the last letters alone; nothing stays nothing. -/
def bySpelling (phrase : List Char) : List Char :=
  if phrase.isEmpty then []
  else phrase ++ (if hisses (Unicode.lowerText phrase) then ['e', 's'] else ['s'])

end Plural

end TextGrammar
