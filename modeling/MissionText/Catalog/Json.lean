/-
  The catalog as JSON, laid out for reading.

  Members and items stand on lines of their own, two spaces deeper than what
  they belong to; a list without items is `[]`.  In strings only the quote, the
  backslash and the control characters below U+0020 are escaped.
-/
import MissionText.Catalog.Basic

namespace MissionText

namespace Json

/-! ## Strings -/

/-- A hexadecimal digit in lower case. -/
def hexDigit (n : Nat) : Char :=
  if n < 10 then Char.ofNat ('0'.toNat + n) else Char.ofNat ('a'.toNat + (n - 10))

/-- A character as written in a string. -/
def escapeChar (c : Char) : List Char :=
  if c = '"' then ['\\', '"']
  else if c = '\\' then ['\\', '\\']
  else if c = '\x08' then ['\\', 'b']
  else if c = '\x0C' then ['\\', 'f']
  else if c = '\n' then ['\\', 'n']
  else if c = '\r' then ['\\', 'r']
  else if c = '\t' then ['\\', 't']
  else if c.toNat < 0x20 then
    ['\\', 'u', '0', '0', hexDigit (c.toNat / 16), hexDigit (c.toNat % 16)]
  else [c]

/-- A string in its quotes. -/
def quoted (s : String) : String :=
  "\"" ++ String.ofList (s.toList.flatMap escapeChar) ++ "\""

/-! ## Layout -/

/-- The start of a line at a depth. -/
def line (depth : Nat) : String :=
  "\n" ++ String.ofList (List.replicate (2 * depth) ' ')

/-- Items between brackets, one line each. -/
def bracketed (opening closing : String) (depth : Nat) (items : List String) : String :=
  if items.isEmpty then opening ++ closing
  else
    opening ++ line (depth + 1) ++ String.intercalate ("," ++ line (depth + 1)) items ++
      line depth ++ closing

/-- A list that starts at a depth. -/
def list (depth : Nat) (items : List String) : String :=
  bracketed "[" "]" depth items

/-- A record that starts at a depth. -/
def record (depth : Nat) (members : List (String × String)) : String :=
  bracketed "\x7b" "\x7d" depth (members.map fun m => quoted m.1 ++ ": " ++ m.2)

end Json

/-! ## Nodes -/

open Json in
/-- A translation at a depth. -/
def Translation.json (depth : Nat) (t : Translation) : String :=
  record depth [("language", quoted t.language), ("text", quoted t.text)]

open Json in
/-- A key at a depth. -/
def Key.json (depth : Nat) (k : Key) : String :=
  record depth [("id", quoted k.id),
    ("translations", list (depth + 1) (k.translations.map (·.json (depth + 2))))]

open Json in
/-- A container at a depth. -/
def Container.json (depth : Nat) (c : Container) : String :=
  record depth [("name", quoted c.name),
    ("keys", list (depth + 1) (c.keys.map (·.json (depth + 2))))]

open Json in
/-- A package at a depth. -/
def Package.json (depth : Nat) (p : Package) : String :=
  record depth [("name", quoted p.name),
    ("containers", list (depth + 1) (p.containers.map (·.json (depth + 2))))]

open Json in
/-- A project as a whole. -/
def Project.json (p : Project) : String :=
  record 0 [("name", quoted p.name), ("packages", list 1 (p.packages.map (·.json 2)))]

end MissionText
