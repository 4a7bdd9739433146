-- Generators: a grammar, settings, and the random words that are left. A generator is built from
-- a grammar given in one of several ways, and each text that it makes takes words from where the
-- one before left off.
import TextGrammar.Chance.ChaCha
import TextGrammar.Files
import TextGrammar.Ron.Grammar
import TextGrammar.Settings
import TextGrammar.Source.Compiler

namespace TextGrammar

/-! ## Errors -/

/-- Why a generator cannot be built or makes no text. -/
inductive GeneratorError where
  /-- A saved grammar cannot be read. -/
  | savedGrammar
  /-- Saved settings cannot be read. -/
  | savedSettings
  | source (error : SyntaxError)
  | expansion (error : ExpansionError)
  /-- A file is not there, or is no text. -/
  | file
  | noGrammar
  | noStartSymbol
deriving Repr, DecidableEq

/-- The wording of an error. -/
def GeneratorError.message : GeneratorError → String
  | .savedGrammar => "grammar error: the saved grammar cannot be read"
  | .savedSettings => "config error: the saved settings cannot be read"
  | .source error => s!"syntax error: {error.message}"
  | .expansion error => s!"expansion error: {error.message}"
  | .file => "IO error: the file cannot be read"
  | .noGrammar => "no grammar given to the builder"
  | .noStartSymbol => "grammar declares no symbols"

/-! ## Building -/

/-- Where a generator gets its grammar from. -/
inductive GrammarOrigin where
  | compiled (grammar : Grammar)
  | source (text : String)
  | saved (text : String)
  /-- A saved grammar if the file's extension says so, and a source otherwise. -/
  | file (path : String)

/-- A generator to be built. -/
structure GeneratorPlan where
  origin : Option GrammarOrigin := none
  settings : Settings := {}

/-- A generator. -/
structure Generator where
  grammar : Grammar
  settings : Settings
  words : ChaCha

/-- Compiles a source. -/
def compileOrigin (text : String) : Except GeneratorError Grammar :=
  (Grammar.compile text).mapError .source

/-- Loads a saved grammar. -/
def loadOrigin (text : String) : Except GeneratorError Grammar :=
  ((Grammar.load? text).map .ok).getD (.error .savedGrammar)

/-- The extension of saved grammars. -/
def savedExtension : String := "ron"

/-- The grammar of an origin; `readFile` gives the text of a file. -/
def GrammarOrigin.grammar (readFile : String → Option String) :
    GrammarOrigin → Except GeneratorError Grammar
  | .compiled grammar => .ok grammar
  | .source text => compileOrigin text
  | .saved text => loadOrigin text
  | .file path =>
    match readFile path with
    | none => .error .file
    | some text =>
      if extension? (fileName path) = some savedExtension then loadOrigin text
      else compileOrigin text

/-- Builds a generator. -/
def GeneratorPlan.build (plan : GeneratorPlan) (readFile : String → Option String) :
    Except GeneratorError Generator := do
  match plan.origin with
  | none => .error .noGrammar
  | some origin =>
    let grammar ← origin.grammar readFile
    .ok ⟨grammar, plan.settings, .ofSeed plan.settings.seed⟩

/-! ## Making text -/

namespace Generator

/-- The expander that a generator makes text with. -/
def expander (g : Generator) : Expander ChaCha :=
  ⟨g.grammar, .ofWords, g.settings.inflector.inflector, g.settings.limits⟩

/-- The end of an expansion, and the generator as it leaves it. -/
def finish (g : Generator) (outcome : Expander.Outcome ChaCha) :
    Except GeneratorError String × Generator :=
  (outcome.result.mapError .expansion, { g with words := outcome.walk.source })

/-- Expands a symbol or a pattern. -/
def generate (g : Generator) (input : String) : Except GeneratorError String × Generator :=
  g.finish (g.expander.expand input g.words)

/-- Expands the first symbol. -/
def generateStart (g : Generator) : Except GeneratorError String × Generator :=
  match g.grammar.start? with
  | some symbol => g.finish (g.expander.expandSymbol symbol.name g.words)
  | none => (.error .noStartSymbol, g)

/-- Expands an input several times, up to the first failure. -/
def generateVariants (g : Generator) (input : String) :
    (count : Nat) → Except GeneratorError (List String) × Generator
  | 0 => (.ok [], g)
  | count + 1 =>
    match g.generate input with
    | (.error error, g) => (.error error, g)
    | (.ok text, g) =>
      let (texts, g) := g.generateVariants input count
      (texts.map (text :: ·), g)

/-- Expands every rule once, whatever its weight. -/
def selfTest (g : Generator) : List Expander.Trial × Generator :=
  let (trials, words) := g.expander.tryAll none g.words
  (trials, { g with words })

/-- Starts the random words anew from a seed. -/
def reseed (g : Generator) (seed : UInt64) : Generator :=
  { g with settings := { g.settings with seed }, words := .ofSeed seed }

end Generator

end TextGrammar
