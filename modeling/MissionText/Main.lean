/-
  The command line.

  The files that a run can touch are read into a `FileTree`, the run is made on
  that value, and the differences are written back.
-/
import MissionText.Command.Run
import Std.Time.DateTime.Timestamp

namespace MissionText.Main

/-- The location of a path, given the current directory. -/
def absolute (current : Location) (path : String) : Location :=
  (if path.startsWith "/" then [] else current) ++ FileTree.names path

/-- The path of a location. -/
def pathOf (l : Location) : String :=
  "/" ++ String.intercalate "/" l

/-- What stands below a directory. -/
partial def readBelow (l : Location) : IO (List (Location × FileNode)) := do
  let dir := (← IO.currentDir) / pathOf l
  let mut found := []
  for entry in ← dir.readDir do
    let here := l ++ [entry.fileName]
    if ← entry.path.isDir then
      found := (here, FileNode.directory) :: found ++ (← readBelow here)
    else
      found := (here, FileNode.file (← IO.FS.readBinFile entry.path).toList) :: found
  return found

/-- What stands on the way to a location, the location included. -/
def readAbove (l : Location) : IO (List (Location × FileNode)) := do
  let mut found := []
  for n in List.range l.length do
    let here := l.take (n + 1)
    let path := (← IO.currentDir) / pathOf here
    if ← path.isDir then found := (here, FileNode.directory) :: found
    else if ← path.pathExists then
      found := (here, FileNode.file (← IO.FS.readBinFile path).toList) :: found
  return found

/-- The files that a run can touch. -/
def readTree (arguments : Option Arguments) : IO FileTree := do
  let current := FileTree.names (← IO.currentDir).toString
  let root := absolute current ((arguments.bind (·.directory)).getD ".")
  let outputs := match arguments.map (·.command) with
    | some (.dump (some path)) => [absolute current path]
    | _ => []
  let path := (← IO.currentDir) / pathOf root
  let below ← if ← path.isDir then readBelow root else pure []
  let above ← (current :: root :: outputs).mapM readAbove
  let entries := above.flatten.reverse ++ below.reverse
  let known := entries.foldl (fun t (l, node) => t.put l node) (⟨current, []⟩ : FileTree)
  return known

/-- Brings the files from one tree to another. -/
def writeBack (old new : FileTree) : IO PUnit := do
  for (l, _) in old.entries do
    if (new.node? l).isNone then IO.FS.removeFile (pathOf l)
  for (l, node) in new.entries do
    if old.node? l ≠ some node then
      match node with
      | .directory => IO.FS.createDirAll (pathOf l)
      | .file content => IO.FS.writeBinFile (pathOf l) ⟨content.toArray⟩

end MissionText.Main

open MissionText in
/-- Runs the program. -/
def main (arguments : List String) : IO UInt32 := do
  let tree ← Main.readTree (Arguments.parse arguments).toOption
  let now ← Std.Time.Timestamp.now
  let (outcome, result) := run arguments now.toSecondsSinceUnixEpoch.val.toNat tree
  Main.writeBack tree result
  IO.print outcome.stdout
  IO.eprint outcome.stderr
  return UInt32.ofNat outcome.exit
