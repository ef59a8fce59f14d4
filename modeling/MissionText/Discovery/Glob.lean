/-
  Glob patterns for relative paths, as ignore files use them.

  Paths are matched as bytes.

  * `?` and `*` stand for one byte and for any bytes but slashes; `[…]` and
    `[!…]` for one byte of a class; a backslash takes the next character
    literally; `{…,…}` stands for any of its alternatives.
  * `**` stands for any number of directories where it makes up a part of the
    path; elsewhere it is two stars.  The pattern `**` alone matches everything.
  * `parse?` fails for groups that are not closed, for a group end without its
    start, and where the lexemes fail (`lex?`).
-/
import MissionText.Discovery.Glob.Lexeme
import MissionText.Discovery.Glob.Pattern

namespace MissionText.Glob

/-! ## Matchers of lexemes -/

/-- The byte ranges of a class.  A range between characters of several bytes is
    one between the last byte of the first and the first byte of the last. -/
def byteRanges (ranges : List (Char × Char)) : List (UInt8 × UInt8) :=
  ranges.flatMap fun (low, high) =>
    if low = high then (Utf8.encode [low]).map fun b => (b, b)
    else
      let lows := Utf8.encode [low]
      let highs := Utf8.encode [high]
      (lows.dropLast.map fun b => (b, b)) ++
        (lows.getLast?.bind fun a => highs.head?.map fun b => (a, b)).toList ++
        (highs.drop 1).map fun b => (b, b)

/-- The pattern with its last matcher, a slash or a run of directories, replaced
    by one that takes more directories. -/
def Pattern.widen (p : Pattern) (m : Matcher) : Pattern :=
  match p with
  | .one _ .leading => p
  | .one _ .trailing => p
  | .one init _ => .one init m
  | p => .one p m

/-- What `**` means in front of the rest of a pattern. -/
inductive DoubleStar where
  /-- Two stars. -/
  | plain
  /-- Directories, with the slash after them. -/
  | directories
  /-- Directories at the end. -/
  | final

/-- The meaning of `**` after other parts, the last of which ends in the
    character `previous`. -/
def doubleStar (inGroup : Bool) (previous : Option Char) (rest : List Lexeme) : DoubleStar :=
  let free := previous = some '/' || (inGroup && (previous = some ',' || previous = some '\x7b'))
  if !free then .plain
  else match rest with
    | [] => .final
    | .comma :: _ => if inGroup then .final else .plain
    | .closing :: _ => if inGroup then .final else .plain
    | .separator :: _ => .directories
    | _ => .plain

/-! ## Parsing -/

/-- A group while it is read: what stands before it and its finished
    alternatives. -/
structure OpenGroup where
  outer : Pattern
  done : Alternatives

/-- The pattern of lexemes that follow open groups, the pattern `p` and a
    character. -/
def parseFrom? (groups : List OpenGroup) (p : Pattern) (previous : Option Char) :
    List Lexeme → Option Pattern
  | [] => if groups.isEmpty then some p else none
  | .star :: .star :: rest =>
    let stars := p.append [.anyRun, .anyRun]
    if p = .empty then
      match rest with
      | [] => if groups.isEmpty then some (.one p .leading) else none
      | .separator :: rest => parseFrom? groups (.one p .leading) (some '/') rest
      | rest => parseFrom? groups stars (some '*') rest
    else
      match doubleStar (!groups.isEmpty) previous rest, rest with
      | .directories, _ :: rest => parseFrom? groups (p.widen .between) (some '/') rest
      | .final, rest => parseFrom? groups (p.widen .trailing) (some '*') rest
      | _, rest => parseFrom? groups stars (some '*') rest
  | .star :: rest => parseFrom? groups (.one p .anyRun) (some '*') rest
  | .question :: rest => parseFrom? groups (.one p .any) (some '?') rest
  | .set negated ranges :: rest =>
    parseFrom? groups (.one p (.set negated (byteRanges ranges))) (some ']') rest
  | .separator :: rest => parseFrom? groups (.one p (.byte '/'.toUInt8)) (some '/') rest
  | .literal c :: rest =>
    parseFrom? groups (p.append ((Utf8.encode [c]).map .byte)) (some c) rest
  | .opening :: rest => parseFrom? (⟨p, .none⟩ :: groups) .empty (some '\x7b') rest
  | .comma :: rest =>
    match groups with
    | [] => parseFrom? [] (.one p (.byte ','.toUInt8)) (some ',') rest
    | g :: groups =>
      parseFrom? ({ g with done := g.done.add p } :: groups) .empty (some ',') rest
  | .closing :: rest =>
    match groups with
    | [] => none
    | g :: groups => parseFrom? groups (.group g.outer (g.done.add p)) (some '\x7d') rest

end Glob

/-- A glob pattern. -/
structure Glob where
  pattern : Glob.Pattern
  deriving Repr, DecidableEq

namespace Glob

/-- The glob of a pattern's text. -/
def parse? (text : List Char) : Option Glob := do
  let lexemes ← lex? text
  let pattern ← parseFrom? [] .empty none lexemes
  return ⟨if pattern = .one .empty .leading then .one .empty .everything else pattern⟩

/-- The glob matches a path. -/
def isMatch (g : Glob) (path : Bytes) : Bool :=
  g.pattern.matches path

/-- How deep a glob may nest. -/
def maxNesting : Nat := 250

/-- The glob nests too deep to be of use. -/
def isTooDeep (g : Glob) : Bool :=
  maxNesting < g.pattern.nesting

end Glob

end MissionText
