-- The law of reports: what a report tells of a file depends on that file and the seed alone, every
-- source of a folder is told of once, in the order of their paths, and the summary counts what was
-- told. In which order the folders list their entries does not show.
import TextGrammar.Command
import TextGrammar.Proofs.Folders

namespace TextGrammar

/-! ## What is told of one file -/

/-- A part of a report that is printed at once. -/
inductive ReportLine where
  | heading (path : String)
  | passed
  | warning (message : String)
  | error (message : String)
deriving Repr, DecidableEq

namespace ReportLine

/-- What is printed, with its line feeds. -/
def text : ReportLine → String
  | heading path => s!"\n=== {path} ===\n\n"
  | passed => "All checks passed!\n"
  | warning message => s!"WARNING: {message}\n"
  | error message => s!"ERROR: {message}\n"

def isWarning : ReportLine → Bool
  | warning _ => true
  | _ => false

def isError : ReportLine → Bool
  | error _ => true
  | _ => false

end ReportLine

namespace Findings

/-- What a report tells of a file with these findings, line by line. -/
def lines (findings : Findings) (path : String) : List ReportLine :=
  .heading path ::
    ((if findings.errors.isEmpty && findings.warnings.isEmpty then [.passed] else []) ++
      findings.warnings.map .warning ++ findings.errors.map .error)

theorem paragraph_eq (findings : Findings) (path : String) :
    findings.paragraph path = String.join ((findings.lines path).map (·.text)) := by
  have hwarnings : (findings.warnings.map fun message => s!"WARNING: {message}\n") =
      (findings.warnings.map ReportLine.warning).map (·.text) := by simp [ReportLine.text]
  have herrors : (findings.errors.map fun message => s!"ERROR: {message}\n") =
      (findings.errors.map ReportLine.error).map (·.text) := by simp [ReportLine.text]
  rw [paragraph, lines, hwarnings, herrors]
  split_ifs <;>
    simp [ReportLine.text, String.join_cons, String.join_append, String.append_assoc]

@[simp]
theorem countP_isWarning_lines (findings : Findings) (path : String) :
    (findings.lines path).countP (·.isWarning) = findings.warnings.length := by
  rw [lines]
  split_ifs <;> simp [ReportLine.isWarning, List.countP_map, Function.comp_def]

@[simp]
theorem countP_isError_lines (findings : Findings) (path : String) :
    (findings.lines path).countP (·.isError) = findings.errors.length := by
  rw [lines]
  split_ifs <;> simp [ReportLine.isError, List.countP_map, Function.comp_def]

end Findings

/-- The section of a file in a report. -/
def sectionOf (seed : UInt64) (path : String) (content : ByteArray) : List ReportLine :=
  (Findings.ofContent content seed).lines path

/-! ## What is told in all -/

/-- The last line of a report on so many files, of which these lines were printed. -/
def summaryOf (files : Nat) (lines : List ReportLine) : String :=
  let errors := lines.countP (·.isError)
  let warnings := lines.countP (·.isWarning)
  s!"\nSummary: {files} files, {errors} errors, {warnings} warnings\n"

/-- The sections of files, in turn. -/
def sectionsOf (seed : UInt64) (files : List (String × ByteArray)) : List ReportLine :=
  files.flatMap fun file => sectionOf seed file.1 file.2

section Sections

variable (seed : UInt64)

theorem join_text_sectionsOf (files : List (String × ByteArray)) :
    String.join (files.map fun file => (Findings.ofContent file.2 seed).paragraph file.1) =
      String.join ((sectionsOf seed files).map (·.text)) := by
  induction files with
  | nil => rfl
  | cons file files ih =>
    rw [sectionsOf, List.flatMap_cons, List.map_append, String.join_append, ← sectionsOf, ← ih,
      sectionOf, ← Findings.paragraph_eq, List.map_cons, String.join_cons]

theorem countP_isError_sectionsOf (files : List (String × ByteArray)) :
    (sectionsOf seed files).countP (·.isError) =
      (files.flatMap fun file => (Findings.ofContent file.2 seed).errors).length := by
  simp [sectionsOf, sectionOf, List.countP_flatMap, List.length_flatMap, Function.comp_def]

theorem countP_isWarning_sectionsOf (files : List (String × ByteArray)) :
    (sectionsOf seed files).countP (·.isWarning) =
      (files.flatMap fun file => (Findings.ofContent file.2 seed).warnings).length := by
  simp [sectionsOf, sectionOf, List.countP_flatMap, List.length_flatMap, Function.comp_def]

/-- A report prints the sections of the files that are checked, and counts what they tell. -/
theorem Report.make_text (path : String) (tree : FileTree) :
    (Report.make path tree seed).text =
      String.join ((sectionsOf seed (filesToCheck path tree)).map (·.text)) ++
        summaryOf (filesToCheck path tree).length (sectionsOf seed (filesToCheck path tree)) := by
  rw [← join_text_sectionsOf]
  delta summaryOf
  rw [countP_isError_sectionsOf, countP_isWarning_sectionsOf]
  simp [Report.make, List.flatMap_map, Function.comp_def, String.append_assoc]

/-- A report is clean when none of the files that are checked has an error. -/
theorem Report.make_clean (path : String) (tree : FileTree) :
    (Report.make path tree seed).clean = true ↔
      ∀ file ∈ filesToCheck path tree, (Findings.ofContent file.2 seed).errors = [] := by
  simp only [Report.make, beq_iff_eq, List.length_eq_zero_iff, List.flatMap_map,
    List.flatMap_eq_nil_iff]

end Sections

/-! ## The answer -/

section Answers

variable {find find' : String → Option FileTree} {path : String}

theorem answer_check {tree : FileTree} (hfind : find path = some tree) (seed : UInt64) :
    Command.answer find (.check path seed) =
      ⟨if (Report.make path tree seed).clean then 0 else 1,
        (Report.make path tree seed).text, ""⟩ := by
  simp [Command.answer, hfind]

/-- The status tells whether a file that was checked has an error. -/
theorem answer_status_eq_zero {tree : FileTree} (hfind : find path = some tree) (seed : UInt64) :
    (Command.answer find (.check path seed)).status = 0 ↔
      ∀ file ∈ filesToCheck path tree, (Findings.ofContent file.2 seed).errors = [] := by
  rw [answer_check hfind, ← Report.make_clean]
  split_ifs with h <;> simp [h]

/-- Two listings of one folder have the same report. -/
theorem answer_relisted {entries entries' : List FileEntry}
    (hfind : find path = some (.folder entries)) (hfind' : find' path = some (.folder entries'))
    (hdistinct : (FileTree.folder entries).Distinct)
    (hlisted : FileTree.EntriesRelisted entries entries') (seed : UInt64) :
    Command.answer find' (.check path seed) = Command.answer find (.check path seed) := by
  have hfiles : filesToCheck path (.folder entries') = filesToCheck path (.folder entries) := by
    rw [filesToCheck_folder, filesToCheck_folder, sourcesIn_relisted hdistinct hlisted]
  rw [answer_check hfind, answer_check hfind', Report.make, Report.make, hfiles]

/-- The report on a folder does not show the order in which folders list their entries. It tells of
every source in the folder and below it once, in the order of their paths, and what it tells of one
depends on its path, its content and the seed alone. It counts the errors and warnings that it
tells, and the status is 0 when no source has an error. -/
theorem folder_report_is_told_file_by_file {entries entries' : List FileEntry}
    (hfind : find path = some (.folder entries)) (hfind' : find' path = some (.folder entries'))
    (hdistinct : (FileTree.folder entries).Distinct)
    (hlisted : FileTree.Relisted (.folder entries) (.folder entries')) (seed : UInt64) :
    Command.answer find' (.check path seed) = Command.answer find (.check path seed) ∧
      ∃ sources : List FileTree.Found,
        (∀ source, source ∈ sources ↔
          FileTree.Holds (.folder entries) source.names source.content ∧
            NamesSource (source.names.getLastD "")) ∧
        sources.Pairwise (fun a b => a.names < b.names) ∧
        let lines := sources.flatMap fun source =>
          sectionOf seed (joinPath path source.names) source.content
        (Command.answer find (.check path seed)).output =
          String.join (lines.map (·.text)) ++ summaryOf sources.length lines ∧
        (Command.answer find (.check path seed)).errors = "" ∧
        ((Command.answer find (.check path seed)).status = 0 ↔
          ∀ source ∈ sources, (Findings.ofContent source.content seed).errors = []) := by
  obtain _ | hentries := hlisted
  refine ⟨answer_relisted hfind hfind' hdistinct hentries seed, sourcesIn entries,
    fun source => mem_sourcesIn, sourcesIn_increasing hdistinct, ?_, ?_, ?_⟩
  · rw [answer_check hfind, Report.make_text, filesToCheck_folder, sectionsOf, List.flatMap_map,
      List.length_map]
  · rw [answer_check hfind]
  · rw [answer_status_eq_zero hfind, filesToCheck_folder, List.forall_mem_map]

/-- Cats, which are no text, and birds. -/
def catsAndBirds : List FileEntry :=
  [⟨"cats.mh", .file ⟨#[0xFF]⟩⟩, ⟨"birds.mh", .file "bird\n pip\n".toUTF8⟩]

/-- A folder of pets, with the cats and birds in a folder of their own. -/
def petsFolder : List FileEntry :=
  [⟨"note.txt", .file "dogs only".toUTF8⟩, ⟨"dogs.mh", .file "dog\n rex\n".toUTF8⟩,
    ⟨"more", .folder catsAndBirds⟩]

/-- The pets, with the entries of both folders in another order. -/
def petsFolderRelisted : List FileEntry :=
  [⟨"more", .folder catsAndBirds.reverse⟩, ⟨"note.txt", .file "dogs only".toUTF8⟩,
    ⟨"dogs.mh", .file "dog\n rex\n".toUTF8⟩]

/-- The law at the pets: either listing is answered alike, and the cats are an error. -/
theorem pets_folder_may_be_relisted :
    (FileTree.folder petsFolder).Distinct ∧
      FileTree.Relisted (.folder petsFolder) (.folder petsFolderRelisted) ∧
      Command.answer (fun _ => some (.folder petsFolderRelisted)) (.check "pets" 7) =
        Command.answer (fun _ => some (.folder petsFolder)) (.check "pets" 7) ∧
      (Command.answer (fun _ => some (.folder petsFolder)) (.check "pets" 7)).status ≠ 0 := by
  have hdistinct : (FileTree.folder petsFolder).Distinct := by
    simp [petsFolder, catsAndBirds, FileTree.Distinct, FileTree.EntriesDistinct]
  have hlisted : FileTree.Relisted (.folder petsFolder) (.folder petsFolderRelisted) := by
    have hbirds : FileTree.Relisted (.folder catsAndBirds) (.folder catsAndBirds.reverse) :=
      .folder (.of_perm (List.reverse_perm _).symm)
    exact .folder (.trans (.cons (.refl _) (.cons (.refl _) (.cons hbirds .nil)))
      (.of_perm (List.perm_append_singleton _ [_, _])))
  obtain ⟨hsame, sources, hsources, -, -, -, hstatus⟩ :=
    @folder_report_is_told_file_by_file (fun _ => some (.folder petsFolder))
      (fun _ => some (.folder petsFolderRelisted)) "pets" petsFolder petsFolderRelisted rfl rfl
      hdistinct hlisted 7
  refine ⟨hdistinct, hlisted, hsame, fun hzero => ?_⟩
  have hcat : FileTree.Holds (.folder catsAndBirds) ["cats.mh"] ⟨#[0xFF]⟩ :=
    .folder (List.mem_cons_self ..) (.file _)
  have hmore : (⟨"more", .folder catsAndBirds⟩ : FileEntry) ∈ petsFolder := by simp [petsFolder]
  have hholds : FileTree.Holds (.folder petsFolder) ["more", "cats.mh"] ⟨#[0xFF]⟩ :=
    .folder hmore hcat
  have hcats := (hsources ⟨_, _⟩).2 ⟨hholds, "cats", by decide, rfl⟩
  have htext : String.fromUTF8? ⟨#[0xFF]⟩ = none := by decide +kernel
  have herrors := hstatus.1 hzero _ hcats
  rw [Findings.ofContent, htext] at herrors
  cases herrors

end Answers

end TextGrammar
