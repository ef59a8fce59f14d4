/-
  Directives: comments in a script that declare a source text.

      // TR <package> <container> <key> "text"

      /* TR <package> <container> <key>
         text on several
         lines */

  * `Header.read?` reads the part that both forms share, after the comment
    mark.  Since words and white space have no character in common, each part
    is simply taken as long as possible.
  * `Directive.ofLine?` finds the first directive of the short form in a line.
  * `Block` is a comment of the long form while it is open.  Its directive is
    made from the line that opens it and the text after that line
    (`Block.finish`).
  * `scan` reads the lines of a script.  Inside a block there are no other
    directives, and a block that is never closed declares nothing.
-/
import MissionText.Text.Lines
import MissionText.Text.Space

namespace MissionText

/-- A declared source text. -/
structure Directive where
  package : String
  container : String
  key : String
  text : String
  deriving Repr, DecidableEq

/-- The package of the token `*`. -/
def mainPackage : String := "Main"

/-! ## Headers -/

/-- The character may stand in a token. -/
def isTokenChar (c : Char) : Bool :=
  c.isAlphanum || c == '_' || c == '*'

/-- The tokens of a directive. -/
structure Header where
  package : List Char
  container : List Char
  key : List Char
  deriving Repr, DecidableEq

/-- White space, at least one character of it, and what follows. -/
def skipSpaces? (cs : List Char) : Option (List Char) :=
  match cs with
  | c :: _ => if isSpace c then some (cs.dropWhile isSpace) else none
  | [] => none

/-- A token after white space, and what follows it. -/
def spacedToken? (cs : List Char) : Option (List Char × List Char) := do
  let cs ← skipSpaces? cs
  let token := cs.takeWhile isTokenChar
  if token.isEmpty then none else some (token, cs.dropWhile isTokenChar)

/-- The letters `TR` after any white space, and what follows them. -/
def skipMark? (cs : List Char) : Option (List Char) :=
  match cs.dropWhile isSpace with
  | 'T' :: 'R' :: cs => some cs
  | _ => none

/-- The mark and the tokens of a directive, and what follows them. -/
def Header.read? (cs : List Char) : Option (Header × List Char) := do
  let cs ← skipMark? cs
  let (package, cs) ← spacedToken? cs
  let (container, cs) ← spacedToken? cs
  let (key, cs) ← spacedToken? cs
  return (⟨package, container, key⟩, cs)

/-- A token with each underscore replaced by a space. -/
def plainName (token : List Char) : String :=
  String.ofList (token.map fun c => if c = '_' then ' ' else c)

/-- The directive of a header with a text, in the script `base`. -/
def Header.directive (h : Header) (base text : String) : Directive :=
  { package := if h.package = ['*'] then mainPackage else plainName h.package
    container := if h.container = ['*'] then base else plainName h.container
    key := String.ofList h.key
    text }

/-- The first result along the suffixes of a text, the whole text first. -/
def firstSuffix? {α : Type} (f : List Char → Option α) : List Char → Option α
  | [] => f []
  | c :: cs =>
    match f (c :: cs) with
    | some a => some a
    | none => firstSuffix? f cs

/-! ## The short form -/

/-- The text between quotes after white space. -/
def quotedText? (cs : List Char) : Option (List Char) := do
  let cs ← skipSpaces? cs
  match cs with
  | '"' :: cs =>
    if cs.contains '"' then some (cs.takeWhile (· != '"')) else none
  | _ => none

/-- The short form at the start of a text. -/
def shortForm? (cs : List Char) : Option (Header × List Char) :=
  match cs with
  | '/' :: '/' :: cs => do
    let (header, cs) ← Header.read? cs
    let text ← quotedText? cs
    return (header, text)
  | _ => none

/-- The first directive of the short form in a line. -/
def Directive.ofLine? (base : String) (line : List Char) : Option Directive :=
  (firstSuffix? shortForm? line).map fun (header, text) =>
    header.directive base (String.ofList text)

/-! ## The long form -/

/-- A block comment that is open: the line that opened it and the text since,
    where each line ends in a space. -/
structure Block where
  opening : List Char
  body : List Char
  deriving Repr, DecidableEq

/-- A text starts with a block opener. -/
def blockOpener? (cs : List Char) : Option (List Char) :=
  match cs with
  | '/' :: '*' :: cs => skipMark? cs
  | _ => none

/-- The line opens a block. -/
def opensBlock (line : List Char) : Bool :=
  (firstSuffix? blockOpener? line).isSome

/-- What follows an end of a comment that stands at the start of a text. -/
def commentEnd? (cs : List Char) : Option (List Char) :=
  match cs with
  | '*' :: '/' :: cs => some cs
  | _ => none

/-- The line ends a block. -/
def closesBlock (line : List Char) : Bool :=
  (firstSuffix? commentEnd? line).isSome

/-- A text with angle brackets written as entities. -/
def escapeAngles (cs : List Char) : List Char :=
  cs.flatMap fun c =>
    if c = '<' then "&lt;".toList else if c = '>' then "&gt;".toList else [c]

theorem commentEnd?_eq_some_iff {cs rest : List Char} :
    commentEnd? cs = some rest ↔ cs = '*' :: '/' :: rest := by
  unfold commentEnd?
  split
  · simp
  · next h => simpa using h rest

/-- A text without the ends of comments and the white space before them. -/
def dropCommentEnds (cs : List Char) : List Char :=
  match h : commentEnd? (cs.dropWhile isSpace) with
  | some rest =>
    have : rest.length < cs.length := by
      have := (List.dropWhile_suffix isSpace (l := cs)).length_le
      rw [commentEnd?_eq_some_iff.1 h] at this
      exact Nat.lt_of_succ_lt this
    dropCommentEnds rest
  | none =>
    match cs with
    | [] => []
    | c :: cs => c :: dropCommentEnds cs
  termination_by cs.length

namespace Block

/-- The block with one more line. -/
def add (b : Block) (line : List Char) : Block :=
  { b with body := b.body ++ line ++ [' '] }

/-- The text of a block: markup escaped, ends of comments dropped, white space
    collapsed. -/
def text (b : Block) : String :=
  String.ofList (Text.joinWords ' ' (dropCommentEnds (escapeAngles b.body)))

/-- The long form at the start of a text. -/
def header? (cs : List Char) : Option Header :=
  match cs with
  | '/' :: '*' :: cs => (Header.read? cs).map (·.1)
  | _ => none

/-- The directive of a closed block, if the line that opened it names one. -/
def finish (base : String) (b : Block) : Option Directive :=
  (firstSuffix? header? (Text.joinWords ' ' b.opening)).map (·.directive base b.text)

end Block

/-! ## Scripts -/

/-- The directives of the lines that follow an open block or none. -/
def scanFrom (base : String) : Option Block → List (List Char) → List Directive
  | _, [] => []
  | none, line :: lines =>
    match Directive.ofLine? base line with
    | some d => d :: scanFrom base none lines
    | none =>
      if opensBlock line then
        if closesBlock line then (Block.finish base ⟨line, []⟩).toList ++ scanFrom base none lines
        else scanFrom base (some ⟨line, []⟩) lines
      else scanFrom base none lines
  | some b, line :: lines =>
    if closesBlock line then ((b.add line).finish base).toList ++ scanFrom base none lines
    else scanFrom base (some (b.add line)) lines

/-- The directives of a script, in order. -/
def scan (base : String) (content : List Char) : List Directive :=
  scanFrom base none (Text.lines content)

end MissionText
