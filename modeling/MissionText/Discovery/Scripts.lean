/-
  The scripts below a directory.

  A script is a regular file with one of four kinds of names (`isScriptName`).
  A file is found unless it, or a directory on the way to it, is ignored.

  * Every directory from the top of the search down to the parent of an entry
    may hold rules about it.  Rules of a deeper directory come before those of
    a higher one, `.ignore` before `.gitignore` before `.git/info/exclude`.
  * The latter two count only within a repository, which a directory with a
    `.git` or a `.jj` starts: up to the deepest such directory of the chain.  If
    it lies above the top, they count in the whole chain.
  * `discover` lists the scripts by their locations below the directory, in the
    order of their names from the first to the last.
-/
import MissionText.Discovery.IgnoreRules
import MissionText.FileTree

namespace MissionText

/-- The file name is that of a script. -/
def isScriptName (name : String) : Bool :=
  ".sqf".toList.isSuffixOf name.toList || ".SQF".toList.isSuffixOf name.toList ||
    name == "description.ext" || name == "mission.sqm"

namespace Discovery

/-! ## Rules -/

/-- The rules in a file, none if there is no such file. -/
def rulesAt (t : FileTree) (l : Location) : IgnoreRules :=
  match t.node? l with
  | some (.file content) => IgnoreRules.parse content
  | _ => []

/-- The bytes of a relative path. -/
def pathBytes (names : List String) : Bytes :=
  utf8 (String.intercalate "/" names)

/-- What the rules of one file in the directory `dir` say about an entry
    below it. -/
def verdictOf (t : FileTree) (dir file : Location) (rest : List String) (isDirectory : Bool) :
    Verdict :=
  (rulesAt t (dir ++ file)).verdict (pathBytes rest) isDirectory

/-- The directories on the way from `top` to an entry below it, each with what
    remains of the entry's path, the deepest first. -/
def chain (top : Location) (names : List String) : List (Location × List String) :=
  ((List.range names.length).map fun n => (top ++ names.take n, names.drop n)).reverse

/-- The directory starts a repository. -/
def startsRepository (t : FileTree) (dir : Location) : Bool :=
  (t.node? (dir ++ [".git"])).isSome || (t.node? (dir ++ [".jj"])).isSome

/-- The directories of a chain up to the deepest one that starts a repository.
    Without one these are all if a directory above `top` starts a repository,
    and none otherwise. -/
def withinRepository (t : FileTree) (top : Location) (dirs : List (Location × List String)) :
    List (Location × List String) :=
  match dirs.span fun d => !startsRepository t d.1 with
  | (inner, d :: _) => inner ++ [d]
  | (_, []) =>
    if (List.range top.length).any fun n => startsRepository t (top.take n) then dirs else []

/-- The first verdict of one file in some directories. -/
def firstVerdict (t : FileTree) (file : Location) (isDirectory : Bool)
    (dirs : List (Location × List String)) : Verdict :=
  dirs.foldr (fun d v => (verdictOf t d.1 file d.2 isDirectory).orElse v) .undecided

/-- What the rules above an entry say about it. -/
def entryVerdict (t : FileTree) (top : Location) (names : List String) (isDirectory : Bool) :
    Verdict :=
  let dirs := chain top names
  let repository := withinRepository t top dirs
  (firstVerdict t [".ignore"] isDirectory dirs).orElse <|
    (firstVerdict t [".gitignore"] isDirectory repository).orElse <|
      firstVerdict t [".git", "info", "exclude"] isDirectory repository

/-- The entry and all directories on the way to it are not ignored. -/
def isVisible (t : FileTree) (top : Location) (names : List String) : Bool :=
  (List.range names.length).all fun n =>
    entryVerdict t top (names.take (n + 1)) (n + 1 < names.length) != .ignored

/-! ## Search -/

/-- The names that lead from one location to another below it. -/
def namesBelow? : Location → Location → Option (List String)
  | [], names => some names
  | a :: top, b :: names => if a = b then namesBelow? top names else none
  | _ :: _, [] => none

/-- The regular files below a directory with the names of scripts. -/
def scriptFiles (t : FileTree) (top : Location) : List (List String) :=
  t.entries.filterMap fun (l, node) =>
    match node, namesBelow? top l with
    | .file _, some names =>
      if (names.getLast?.map isScriptName).getD false then some names else none
    | _, _ => none

/-- The scripts below a directory. -/
def discover (t : FileTree) (top : Location) : List (List String) :=
  ((scriptFiles t top).filter (isVisible t top)).mergeSort fun a b =>
    !List.lex b a fun x y => decide (x < y)

end Discovery

end MissionText
