-- The program that checks grammar files: it reads the disk, and prints what the command answers.
import TextGrammar.Command

namespace TextGrammar

/-- What stands at a path on the disk, with everything below it. Folders that cannot be listed
count as empty. -/
partial def readTree (path : String) : IO (Option FileTree) := do
  let some place ← (try some <$> IO.FS.realPath path catch _ => pure none) | return none
  if ← place.isDir then
    let found ← try place.readDir catch _ => pure #[]
    let mut entries : List FileEntry := []
    for child in found do
      if let some tree ← readTree child.path.toString then
        entries := ⟨child.fileName, tree⟩ :: entries
    return some (.folder entries)
  else if ← place.pathExists then
    return some (.file (← IO.FS.readBinFile place))
  else return none

end TextGrammar

/-- Runs the command that the arguments ask for. -/
def main (arguments : List String) : IO UInt32 := do
  let command := TextGrammar.Command.ofArguments arguments
  let tree ← match command with
    | .check path _ => TextGrammar.readTree path
    | _ => pure none
  let answer := command.answer fun _ => tree
  (← IO.getStdout).putStr answer.output
  (← IO.getStderr).putStr answer.errors
  return answer.status
