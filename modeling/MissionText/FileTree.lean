/-
  A tree of files as a value.

  A `FileTree` maps locations, the names from the top downwards, to regular
  files and directories.  The top itself is a directory.  Paths are texts that
  start from the current directory or, with a slash, from the top; every part
  of a path but the last has to be a directory.

  * `locate` resolves a path.
  * `readFile`, `writeFile`, `removeFile`, `copyFile` and `createDirs` fail as
    the operations of a file system do, and leave every location alone that
    they do not name.
-/
import MissionText.Error
import MissionText.FilePath

namespace MissionText

/-- What stands at a location. -/
inductive FileNode where
  | file (content : Bytes)
  | directory
  deriving Repr, DecidableEq

/-- The names on the way from the top to a file or directory. -/
abbrev Location := List String

/-- Files and directories, and the current directory. -/
structure FileTree where
  current : Location
  entries : List (Location × FileNode)
  deriving Repr, DecidableEq

namespace FileTree

/-! ## Locations -/

/-- What stands at a location. -/
def node? (t : FileTree) (l : Location) : Option FileNode :=
  if l.isEmpty then some .directory else (t.entries.find? (·.1 = l)).map (·.2)

/-- The tree with another node at a location. -/
def put (t : FileTree) (l : Location) (n : FileNode) : FileTree :=
  { t with
    entries :=
      if t.entries.any (·.1 = l) then t.entries.map fun e => if e.1 = l then (l, n) else e
      else t.entries ++ [(l, n)] }

/-- The tree without the node at a location. -/
def drop (t : FileTree) (l : Location) : FileTree :=
  { t with entries := t.entries.filter (·.1 ≠ l) }

/-- The location has to be a directory. -/
def requireDirectory (t : FileTree) (l : Location) : Except IoError PUnit :=
  match t.node? l with
  | some .directory => .ok ⟨⟩
  | some (.file _) => .error .notDirectory
  | none => .error .notFound

/-- The location that names lead to from a location. -/
def walk (t : FileTree) (l : Location) : List String → Except IoError Location
  | [] => .ok l
  | name :: names => do
    t.requireDirectory l
    t.walk (if name = ".." then l.dropLast else l ++ [name]) names

/-- Where the names of a path start. -/
def origin (t : FileTree) (path : String) : Location :=
  if (FilePath.parse path.toList).1 = .root then [] else t.current

/-- The names of a path. -/
def names (path : String) : List String :=
  (FilePath.parts path.toList).map String.ofList

/-- The last part of a path means nothing, so that the path can only be that of
    a directory. -/
def endsIdle (path : String) : Bool :=
  ((FilePath.parse path.toList).2.getLast?.map FilePath.isIdle).getD true

/-- The location of a path. -/
def locate (t : FileTree) (path : String) : Except IoError Location := do
  if path.isEmpty then throw .notFound
  let l ← t.walk (t.origin path) (names path)
  if endsIdle path then t.requireDirectory l
  return l

/-- What stands at the end of a path. -/
def lookup? (t : FileTree) (path : String) : Option FileNode :=
  match t.locate path with
  | .ok l => t.node? l
  | .error _ => none

/-- There is something at the end of a path. -/
def pathExists (t : FileTree) (path : String) : Bool := (t.lookup? path).isSome

/-- There is a regular file at the end of a path. -/
def isFile (t : FileTree) (path : String) : Bool :=
  match t.lookup? path with
  | some (.file _) => true
  | _ => false

/-- There is a directory at the end of a path. -/
def isDirectory (t : FileTree) (path : String) : Bool :=
  t.lookup? path = some .directory

/-! ## Operations -/

/-- What a path that can be opened for reading leads to. -/
def openFile (t : FileTree) (path : String) : Except IoError FileNode := do
  let l ← t.locate path
  match t.node? l with
  | some n => return n
  | none => throw .notFound

/-- The content of a file. -/
def readFile (t : FileTree) (path : String) : Except IoError Bytes := do
  match ← t.openFile path with
  | .file content => return content
  | .directory => throw .isDirectory

/-- The tree after a file is written, whether or not it was there before.  A
    path with a slash at its end is that of a directory. -/
def writeFile (t : FileTree) (path : String) (content : Bytes) : Except IoError FileTree := do
  if path.toList.getLast? = some '/' then
    let l ← t.walk (t.origin path) (names path).dropLast
    t.requireDirectory l
    throw .isDirectory
  let l ← t.locate path
  match t.node? l with
  | some .directory => throw .isDirectory
  | some (.file _) => return t.put l (.file content)
  | none => do
    t.requireDirectory l.dropLast
    return t.put l (.file content)

/-- The tree after a file is removed. -/
def removeFile (t : FileTree) (path : String) : Except IoError FileTree := do
  let l ← t.locate path
  match t.node? l with
  | some (.file _) => return t.drop l
  | some .directory => throw .isDirectory
  | none => throw .notFound

/-- The tree after a file is copied over another. -/
def copyFile (t : FileTree) (source target : String) : Except IoError FileTree := do
  match ← t.openFile source with
  | .file content => t.writeFile target content
  | .directory => throw .notRegular

/-- The tree after the directories on the way from a location are created
    where they are missing. -/
def createBelow (t : FileTree) (l : Location) : List String → Except IoError FileTree
  | [] => .ok t
  | name :: names =>
    let next := if name = ".." then l.dropLast else l ++ [name]
    match t.node? next with
    | some .directory => t.createBelow next names
    | some (.file _) => .error (if names.isEmpty then .alreadyExists else .notDirectory)
    | none => (t.put next .directory).createBelow next names

/-- The tree after a directory and all above it are created where they are
    missing. -/
def createDirs (t : FileTree) (path : String) : Except IoError FileTree :=
  t.createBelow (t.origin path) (names path)

end FileTree

end MissionText
