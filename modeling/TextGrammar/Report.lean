-- Reports on grammar files: what is wrong with each, and how often in all. A file that compiles
-- is checked, and when the checks find no error every rule of it is tried.
import TextGrammar.Chance.ChaCha
import TextGrammar.Expansion.Basic
import TextGrammar.Files
import TextGrammar.Lint
import TextGrammar.Rule.Printer
import TextGrammar.Source.Compiler

namespace TextGrammar

/-! ## One file -/

/-- What is wrong with a file. -/
structure Findings where
  errors : List String
  warnings : List String
deriving Repr, DecidableEq

namespace Findings

/-- An issue that only warns: the symbol may be meant to be switched off. -/
def warnsOnly : LintIssue → Bool
  | .zeroWeight _ _ => true
  | _ => false

/-- The wording of a trial that failed. -/
def trialMessage? (trial : Expander.Trial) : Option String :=
  match trial.result with
  | .ok _ => none
  | .error error =>
    some (s!"line {trial.symbol.line}: rule '{trial.rule.text}' of " ++
      s!"'{trial.symbol.name}' failed: {error.message}")

/-- What trying every rule of a grammar finds. -/
def ofTrials (grammar : Grammar) (seed : UInt64) : List String :=
  let expander : Expander ChaCha := { grammar, chance := .ofWords }
  (expander.tryAll none (.ofSeed seed)).1.filterMap trialMessage?

/-- What is wrong with a grammar that compiled. -/
def ofGrammar (grammar : Grammar) (seed : UInt64) : Findings :=
  let issues := grammar.lint
  let warnings := (issues.filter warnsOnly).map (·.message)
  let errors := (issues.filter fun issue => !warnsOnly issue).map (·.message)
  ⟨if errors.isEmpty then ofTrials grammar seed else errors, warnings⟩

/-- What is wrong with the content of a file. -/
def ofContent (content : ByteArray) (seed : UInt64) : Findings :=
  match String.fromUTF8? content with
  | none => ⟨["cannot read file: stream did not contain valid UTF-8"], []⟩
  | some source =>
    match Grammar.validate source with
    | .error errors => ⟨errors.map (·.message), []⟩
    | .ok grammar => ofGrammar grammar seed

/-- The part of a report that tells what is wrong with a file. -/
def paragraph (findings : Findings) (path : String) : String :=
  let passed := if findings.errors.isEmpty && findings.warnings.isEmpty then
      "All checks passed!\n"
    else ""
  s!"\n=== {path} ===\n\n" ++ passed ++
    String.join (findings.warnings.map fun w => s!"WARNING: {w}\n") ++
    String.join (findings.errors.map fun e => s!"ERROR: {e}\n")

end Findings

/-! ## All files -/

/-- The extension of grammar sources. -/
def sourceExtension : String := "mh"

/-- The files that a path stands for: the file itself, or the grammar sources in the folder and
those below it, in the order of their names. -/
def filesToCheck (path : String) : FileTree → List (String × ByteArray)
  | .file content => [(path, content)]
  | .folder entries =>
    let sources := (FileTree.entryFiles entries).filter fun found =>
      extension? (found.names.getLastD "") = some sourceExtension
    (sources.mergeSort FileTree.Found.before).map fun found =>
      (joinPath path found.names, found.content)

/-- A report on files. -/
structure Report where
  text : String
  /-- No file has an error. -/
  clean : Bool

/-- The report on what stands at a path. -/
def Report.make (path : String) (tree : FileTree) (seed : UInt64) : Report :=
  let checked := (filesToCheck path tree).map fun (path, content) =>
    (path, Findings.ofContent content seed)
  let errors := (checked.flatMap fun (_, findings) => findings.errors).length
  let warnings := (checked.flatMap fun (_, findings) => findings.warnings).length
  let paragraphs := String.join (checked.map fun (path, findings) => findings.paragraph path)
  ⟨paragraphs ++ s!"\nSummary: {checked.length} files, {errors} errors, {warnings} warnings\n",
    errors == 0⟩

end TextGrammar
