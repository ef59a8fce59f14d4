/-
  The rules of one ignore file.

  Each line is one rule: a glob that ignores what it matches or, after `!`,
  takes it back.  Blank lines, lines that start with `#` and lines whose glob
  is faulty are no rules.  A glob with a slash inside or in front matches paths
  from the directory of the file, any other one matches names at any depth; a
  slash at the end restricts it to directories.  The last rule that matches a
  path decides.

  A file with a glob that nests too deep has no rules at all.
-/
import MissionText.Discovery.Glob
import MissionText.Text.Lines
import MissionText.Text.Space

namespace MissionText

/-- A rule of an ignore file. -/
structure IgnoreRule where
  glob : Glob
  /-- The rule takes back what earlier ones ignore. -/
  keeps : Bool
  directoryOnly : Bool
  deriving Repr, DecidableEq

/-- What rules say about a path. -/
inductive Verdict where
  | undecided
  | ignored
  | kept
  deriving Repr, DecidableEq

namespace Verdict

/-- The first verdict that decides. -/
def orElse : Verdict → Verdict → Verdict
  | undecided, v => v
  | v, _ => v

end Verdict

namespace IgnoreRule

/-- A line without the white space at its end, which a backslash before the
    last space keeps. -/
def trimLine (line : List Char) : List Char :=
  if ['\\', ' '].isSuffixOf line then line else Text.trimEnd line

/-- A pattern without the slash at its end, and whether it had one. -/
def dropSlash (cs : List Char) : List Char × Bool :=
  if cs.getLast? = some '/' then
    let cs := cs.dropLast
    (if cs.getLast? = some '\\' then cs.dropLast else cs, true)
  else (cs, false)

/-- The glob text of a pattern, which is `anchored` if it had a slash in
    front. -/
def globText (anchored : Bool) (cs : List Char) : List Char :=
  let cs :=
    if anchored || cs.contains '/' || cs = ['*', '*'] then cs else '*' :: '*' :: '/' :: cs
  if "/**".toList.isSuffixOf cs then cs ++ ['/', '*'] else cs

/-- The rule of a pattern. -/
def ofPattern? (keeps anchored : Bool) (cs : List Char) : Option IgnoreRule :=
  let (cs, directoryOnly) := dropSlash cs
  (Glob.parse? (globText anchored cs)).map fun glob => ⟨glob, keeps, directoryOnly⟩

/-- The pattern after an optional slash in front. -/
def ofAnchored? (keeps : Bool) : List Char → Option IgnoreRule
  | '/' :: cs => ofPattern? keeps true cs
  | cs => ofPattern? keeps false cs

/-- The rule of a line. -/
def ofLine? (line : List Char) : Option IgnoreRule :=
  match line with
  | '#' :: _ => none
  | _ =>
    match trimLine line with
    | [] => none
    | '\\' :: '!' :: cs => ofPattern? false false ('!' :: cs)
    | '\\' :: '#' :: cs => ofPattern? false false ('#' :: cs)
    | '!' :: cs => ofAnchored? true cs
    | cs => ofAnchored? false cs

/-- The rule matches a path. -/
def applies (r : IgnoreRule) (path : Bytes) (isDirectory : Bool) : Bool :=
  (isDirectory || !r.directoryOnly) && r.glob.isMatch path

end IgnoreRule

/-- The rules of an ignore file, in order. -/
abbrev IgnoreRules := List IgnoreRule

namespace IgnoreRules

/-- The lines of an ignore file up to the first one that is not UTF-8, without
    a byte order mark in front. -/
def textLines (content : Bytes) : List (List Char) :=
  let text := match Utf8.decode content with
    | .ok cs => cs
    | .error _ => validLines content
  Text.lines (text.dropWhile (· == '\uFEFF'))
where
  /-- The text of the lines before the first one that is not UTF-8. -/
  validLines (content : Bytes) : List Char :=
    let pieces := (Utf8.pieces content).takeWhile fun
      | .char _ => true
      | _ => false
    let cs := pieces.map Utf8.Piece.replaced
    (cs.reverse.dropWhile (· != '\n')).reverse

/-- The rules in the content of an ignore file. -/
def parse (content : Bytes) : IgnoreRules :=
  let rules := (textLines content).filterMap IgnoreRule.ofLine?
  if rules.any (·.glob.isTooDeep) then [] else rules

/-- What the rules say about a path, which is relative to the directory of the
    file. -/
def verdict (rules : IgnoreRules) (path : Bytes) (isDirectory : Bool) : Verdict :=
  match rules.reverse.find? (·.applies path isDirectory) with
  | some r => if r.keeps then .kept else .ignored
  | none => .undecided

end IgnoreRules

end MissionText
