-- Files and folders as a tree, and paths into it. A path is walked part by part; its text is kept
-- as it was given, and the names below a folder are joined to it.

namespace TextGrammar

mutual

/-- A file or a folder. -/
inductive FileTree where
  | file (content : ByteArray)
  | folder (entries : List FileEntry)

/-- What stands in a folder under a name. -/
structure FileEntry where
  name : String
  tree : FileTree

end

namespace FileTree

/-- A tree is a folder. -/
def isFolder : FileTree → Bool
  | .folder _ => true
  | .file _ => false

/-- What stands in a folder under a name; a file holds no names. -/
def entry? (name : String) : FileTree → Option FileTree
  | .folder entries => (entries.find? (·.name == name)).map (·.tree)
  | .file _ => none

/-! ## Paths -/

/-- What the parts of a path lead to from `here`, with the folders around it from the inside
out. Empty parts and single points stay in a folder, two points leave it. -/
def walk (here : FileTree) (outer : List FileTree) : List String → Option FileTree
  | [] => some here
  | part :: parts =>
    if part = "" || part = "." then
      if here.isFolder then walk here outer parts else none
    else if part = ".." then
      match outer with
      | around :: outer => if here.isFolder then walk around outer parts else none
      | [] => none
    else
      match here.entry? part with
      | some next => walk next (here :: outer) parts
      | none => none

/-- What stands at a path below a folder. The empty path and paths from the root lead nowhere. -/
def at? (root : FileTree) (path : String) : Option FileTree :=
  match path.splitOn "/" with
  | "" :: _ => none
  | parts => walk root [] parts

/-- The text of the file at a path, if it is one and is text. -/
def readText? (root : FileTree) (path : String) : Option String :=
  match root.at? path with
  | some (.file content) => String.fromUTF8? content
  | _ => none

/-! ## Files below a folder -/

/-- A file by the names that lead to it. -/
structure Found where
  names : List String
  content : ByteArray

mutual

/-- The files of a tree, in the order in which its folders list them. -/
def files : FileTree → List Found
  | .file content => [⟨[], content⟩]
  | .folder entries => entryFiles entries

/-- The files of the entries of a folder. -/
def entryFiles : List FileEntry → List Found
  | [] => []
  | ⟨name, tree⟩ :: entries =>
    tree.files.map (fun found => ⟨name :: found.names, found.content⟩) ++ entryFiles entries

end

/-- One file comes before another when its names do, compared one by one. -/
def Found.before (a b : Found) : Bool := !decide (b.names < a.names)

end FileTree

/-! ## Names of files -/

/-- The last part of a path. -/
def fileName (path : String) : String := (path.splitOn "/").getLastD ""

/-- What stands after the last point of a file's name; nothing when no point stands behind the
first character. -/
def extension? (name : String) : Option String :=
  match (name.splitOn ".").reverse with
  | _ :: [] => none
  | [_, ""] => none
  | extension :: _ => some extension
  | [] => none

/-- A path with the names below it. -/
def joinPath (path : String) (names : List String) : String :=
  names.foldl (fun path name => (if path.endsWith "/" then path else path ++ "/") ++ name) path

end TextGrammar
