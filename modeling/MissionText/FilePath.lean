/-
  Paths as text, with `/` between their parts.

  Empty parts and parts `.` mean nothing, except that a path may start with `/`
  or with `./`; those two starts are parts of their own (`Head`).

  * `join` puts a name below a path, `below?` takes a path away from the front
    of another, `relativeTo` shows a path the short way if that is possible.
  * `baseName` is what a script is called in its directives: the last part up
    to its first dot.
-/

namespace MissionText

namespace FilePath

/-! ## Parts -/

/-- How a path starts. -/
inductive Head where
  /-- With `/`. -/
  | root
  /-- With a part `.`. -/
  | here
  /-- With a name or a part `..`. -/
  | plain
  deriving Repr, DecidableEq

/-- The texts between the slashes. -/
def split : List Char → List (List Char)
  | [] => [[]]
  | c :: cs =>
    if c = '/' then [] :: split cs
    else match split cs with
      | part :: parts => (c :: part) :: parts
      | [] => [[c]]

/-- The part means nothing. -/
def isIdle (part : List Char) : Bool :=
  part == [] || part == ['.']

/-- The start of a path and the texts between the slashes after it. -/
def parse (path : List Char) : Head × List (List Char) :=
  match path with
  | '/' :: rest => (.root, split rest)
  | ['.'] => (.here, [])
  | '.' :: '/' :: rest => (.here, split rest)
  | path => (.plain, split path)

/-- The names of a path. -/
def parts (path : List Char) : List (List Char) :=
  (parse path).2.filter (!isIdle ·)

/-! ## Joining -/

/-- A name below a path. -/
def join (path name : String) : String :=
  if path.isEmpty || path.toList.getLast? == some '/' then path ++ name
  else path ++ "/" ++ name

/-! ## Relative paths -/

/-- The texts without idle ones at the end. -/
def trimEnd (texts : List (List Char)) : List (List Char) :=
  (texts.reverse.dropWhile isIdle).reverse

/-- What is left of the texts after names have been taken from the front. -/
def dropNames? : List (List Char) → List (List Char) → Option (List (List Char))
  | [], texts => some (texts.dropWhile isIdle)
  | name :: names, texts =>
    match texts.dropWhile isIdle with
    | text :: texts => if text = name then dropNames? names texts else none
    | [] => none

/-- A path from the directory `base`, if it lies in it. -/
def below? (base path : List Char) : Option (List Char) :=
  let (head, texts) := parse path
  let rest := fun texts => List.intercalate ['/'] (trimEnd texts)
  match (parse base).1, parts base with
  | .plain, [] =>
    match head with
    | .root => some ('/' :: rest texts)
    | .here => some (if (trimEnd texts).isEmpty then ['.'] else '.' :: '/' :: rest texts)
    | .plain => some (rest texts)
  | baseHead, names =>
    if head = baseHead then (dropNames? names texts).map rest else none

/-- A path as shown from the directory `base`. -/
def relativeTo (base path : String) : String :=
  match below? base.toList path.toList with
  | some rest => String.ofList rest
  | none => path

/-! ## Names -/

/-- The last name of a path, unless the path ends in `..`. -/
def fileName? (path : List Char) : Option (List Char) :=
  match (parts path).getLast? with
  | some name => if name = ['.', '.'] then none else some name
  | none => none

/-- The last name of a path up to its first dot. -/
def baseName (path : String) : String :=
  String.ofList (((fileName? path.toList).getD []).takeWhile (· != '.'))

end FilePath

end MissionText
