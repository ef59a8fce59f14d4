/-
  Escaping: the written form of characters that would read as markup, and the
  way back.

  * `escapeText` and `escapeAttribute` write text between tags and text between
    quotes; the latter also hides the quotes.
  * `unescape` replaces each reference by the character it stands for.  It
    knows the five predefined entities and numeric references; there is no
    other way to write one.
-/
import MissionText.Xml.Fault

namespace MissionText.Xml

/-! ## Writing -/

/-- A character as written between tags. -/
def escapeTextChar (c : Char) : List Char :=
  if c = '<' then "&lt;".toList
  else if c = '>' then "&gt;".toList
  else if c = '&' then "&amp;".toList
  else [c]

/-- A character as written in an attribute value. -/
def escapeAttributeChar (c : Char) : List Char :=
  if c = '\'' then "&apos;".toList
  else if c = '"' then "&quot;".toList
  else escapeTextChar c

/-- A text as written between tags. -/
def escapeText (s : String) : String :=
  String.ofList (s.toList.flatMap escapeTextChar)

/-- A text as written in an attribute value. -/
def escapeAttribute (s : String) : String :=
  String.ofList (s.toList.flatMap escapeAttributeChar)

/-! ## References -/

/-- The character of a predefined entity. -/
def predefinedEntity? (name : List Char) : Option Char :=
  if name = "lt".toList then some '<'
  else if name = "gt".toList then some '>'
  else if name = "amp".toList then some '&'
  else if name = "apos".toList then some '\''
  else if name = "quot".toList then some '"'
  else none

/-- The value of a digit, letters of either case counting from ten. -/
def digit? (radix : Nat) (c : Char) : Option Nat :=
  let value :=
    if c.isDigit then c.toNat - '0'.toNat
    else if 'a' ≤ c && c ≤ 'z' then c.toNat - 'a'.toNat + 10
    else if 'A' ≤ c && c ≤ 'Z' then c.toNat - 'A'.toNat + 10
    else radix
  if value < radix then some value else none

/-- The 32-bit number that digits continue. -/
def readDigits (radix value : Nat) : List Char → Except ReferenceFault Nat
  | [] => .ok value
  | c :: cs =>
    match digit? radix c with
    | none => .error .badDigit
    | some d =>
      if value * radix + d < 2 ^ 32 then readDigits radix (value * radix + d) cs
      else .error .tooLarge

/-- A 32-bit number without a sign. -/
def readNumber (radix : Nat) : List Char → Except ReferenceFault Nat
  | [] => .error .noDigits
  | c :: cs => if c = '+' || c = '-' then .error .sign else readDigits radix 0 (c :: cs)

/-- The character of a numeric reference, which is what follows the `#`. -/
def numericReference (body : List Char) : Except ReferenceFault Char := do
  let value ← match body with
    | 'x' :: digits => readNumber 16 digits
    | digits => readNumber 10 digits
  if value = 0 then throw .zero
  else if value.isValidChar then return Char.ofNat value
  else throw (.noCharacter value)

/-- The number of bytes of a text. -/
def byteLength (cs : List Char) : Nat :=
  cs.foldl (fun n c => n + c.utf8Size) 0

/-- The character that the reference between `&` and `;` stands for, when the
    `&` is at byte `position`. -/
def resolve (position : Nat) (body : List Char) : Except EscapeFault Char :=
  match body with
  | '#' :: number => (numericReference number).mapError .reference
  | name =>
    match predefinedEntity? name with
    | some c => .ok c
    | none =>
      .error (.unknownEntity (position + 1) (position + 1 + byteLength name) (String.ofList name))

/-! ## Reading -/

/-- A reference that has been opened: the byte of its `&` and what has been
    read of it, the last character first. -/
structure OpenReference where
  position : Nat
  body : List Char

/-- The characters that a text stands for from byte `offset` on. -/
def unescapeFrom (offset : Nat) :
    Option OpenReference → List Char → Except EscapeFault (List Char)
  | none, [] => .ok []
  | some r, [] => .error (.unterminated r.position offset)
  | none, c :: cs =>
    if c = '&' then unescapeFrom (offset + 1) (some ⟨offset, []⟩) cs
    else (unescapeFrom (offset + c.utf8Size) none cs).map (c :: ·)
  | some r, c :: cs =>
    if c = ';' then
      match resolve r.position r.body.reverse with
      | .error fault => .error fault
      | .ok d => (unescapeFrom (offset + 1) none cs).map (d :: ·)
    else if c = '&' then .error (.unterminated r.position (offset + byteLength (c :: cs)))
    else unescapeFrom (offset + c.utf8Size) (some ⟨r.position, c :: r.body⟩) cs

/-- The characters that a text stands for. -/
def unescape (cs : List Char) : Except EscapeFault (List Char) :=
  unescapeFrom 0 none cs

/-- The text that bytes between tags or quotes stand for. -/
def decodeText (raw : Bytes) : Except Fault String := do
  let cs ← (Utf8.decode raw).mapError .encoding
  let cs ← (unescape cs).mapError .escape
  return String.ofList cs

end MissionText.Xml
