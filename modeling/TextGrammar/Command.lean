-- The command line that checks grammar files: what its arguments ask for, and what it answers.
import TextGrammar.Numeral
import TextGrammar.Report

namespace TextGrammar

/-- What the arguments ask for. -/
inductive Command where
  | help
  /-- The text after a seed option is no seed. -/
  | badSeed (text : String)
  | check (path : String) (seed : UInt64)
deriving Repr, DecidableEq

/-- What a command prints, and the status it ends with. -/
structure Answer where
  status : UInt32
  output : String
  errors : String
deriving Repr, DecidableEq

namespace Command

/-- Reads the options behind a path. The last seed counts, and all else is passed over. -/
def ofOptions (path : String) (seed : UInt64) : List String → Command
  | "--seed" :: text :: options =>
    match readUInt64? text.toList with
    | some seed => ofOptions path seed options
    | none => .badSeed text
  | _ :: options => ofOptions path seed options
  | [] => .check path seed

/-- Reads the arguments. -/
def ofArguments : List String → Command
  | [] => .help
  | path :: options => if path = "--help" || path = "-h" then .help else ofOptions path 0 options

/-- The answer to a command; `find` gives what stands at a path. -/
def answer (find : String → Option FileTree) : Command → Answer
  | .help => ⟨0, "Usage: grammar_linter <file.mh | dir> [--seed <n>]\n", ""⟩
  | .badSeed text =>
    ⟨2, "", s!"ERROR: seed must be a non-negative integer, got '{text}'\n"⟩
  | .check path seed =>
    match find path with
    | none => ⟨1, "", s!"ERROR: Path '{path}' does not exist\n"⟩
    | some tree =>
      let report := Report.make path tree seed
      ⟨if report.clean then 0 else 1, report.text, ""⟩

end Command

end TextGrammar
