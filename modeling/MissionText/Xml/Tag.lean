/-
  The inside of a tag: its name and its attributes.

  A tag is given by its content, the bytes between `<` and `>` without the
  slash of an empty element.  The name runs to the first white space and may be
  empty.  Attributes follow, read one by one from the left; nothing need
  separate a closing quote from the next key, and keys may be repeated.  A key
  is at least one byte long and may start with an equals sign.
-/
import MissionText.Xml.Escape

namespace MissionText.Xml

/-- White space of markup: space, tab, line feed and carriage return. -/
def isBlankByte (b : UInt8) : Bool :=
  b == 0x20 || b == 0x09 || b == 0x0A || b == 0x0D

/-- Attributes as keys with values, in the order written. -/
abbrev Attributes := List (String × String)

/-! ## Names -/

/-- The full name of a tag. -/
def tagName (content : Bytes) : Bytes :=
  content.takeWhile (fun b => !isBlankByte b)

/-- The part of a name after the first colon, or all of it. -/
def localPart (name : Bytes) : Bytes :=
  match name.dropWhile (· != ':'.toUInt8) with
  | _ :: rest => rest
  | [] => name

/-- The name of the element that a tag opens, without its namespace. -/
def elementName (content : Bytes) : String :=
  lossyText (localPart (tagName content))

/-! ## Attributes -/

/-- An attribute as written, and what follows it. -/
structure RawAttribute where
  key : Bytes
  value : Bytes
  rest : Bytes

/-- The value at the start of what follows an equals sign, in a tag of `size`
    bytes. -/
def rawValue (size : Nat) (key afterEquals : Bytes) : Except AttributeFault RawAttribute :=
  match afterEquals.dropWhile isBlankByte with
  | [] => .error (.noValue size)
  | q :: bs =>
    if q == '"'.toUInt8 || q == '\''.toUInt8 then
      match bs.dropWhile (· != q) with
      | [] => .error (.unclosed size (Char.ofNat q.toNat))
      | _ :: rest => .ok ⟨key, bs.takeWhile (· != q), rest⟩
    else .error (.unquoted (size - (q :: bs).length))

/-- The byte may stand in a key after its first byte. -/
def isKeyByte (b : UInt8) : Bool :=
  !(b == '='.toUInt8 || isBlankByte b)

/-- The attribute that starts with the byte `first`, at the end of a tag of
    `size` bytes.  The first byte of a key can be any. -/
def rawAttribute (size : Nat) (first : UInt8) (bs : Bytes) :
    Except AttributeFault RawAttribute :=
  match (bs.dropWhile isKeyByte).dropWhile isBlankByte with
  | [] => .error (.noEquals size)
  | e :: afterEquals =>
    if e == '='.toUInt8 then rawValue size (first :: bs.takeWhile isKeyByte) afterEquals
    else .error (.noEquals (size - (e :: afterEquals).length))

theorem rawValue_suffix {size : Nat} {key bs : Bytes} {a : RawAttribute}
    (h : rawValue size key bs = .ok a) : a.rest <:+ bs := by
  unfold rawValue at h
  split at h
  · cases h
  · next q cs hq =>
    have hcs : cs <:+ bs :=
      (List.suffix_cons q cs).trans (hq ▸ List.dropWhile_suffix isBlankByte)
    split at h
    · split at h
      · cases h
      · next c rest hr =>
        cases h
        exact ((List.suffix_cons c rest).trans (hr ▸ List.dropWhile_suffix _)).trans hcs
    · cases h

/-- What follows an attribute is a suffix of what follows its first byte. -/
theorem rawAttribute_suffix {size : Nat} {first : UInt8} {bs : Bytes} {a : RawAttribute}
    (h : rawAttribute size first bs = .ok a) : a.rest <:+ bs := by
  unfold rawAttribute at h
  split at h
  · cases h
  · next e cs he =>
    have hcs : cs <:+ bs :=
      ((List.suffix_cons e cs).trans (he ▸ List.dropWhile_suffix isBlankByte)).trans
        (List.dropWhile_suffix isKeyByte)
    split at h
    · exact (rawValue_suffix h).trans hcs
    · cases h

/-- The key and the value that an attribute stands for. -/
def RawAttribute.decode (a : RawAttribute) : Except Fault (String × String) :=
  (decodeText a.value).map fun value => (lossyText a.key, value)

/-- The attributes in `bs`, which is the end of a tag of `size` bytes. -/
def attributesFrom (size : Nat) (bs : Bytes) : Except DocumentFault Attributes :=
  match bs with
  | [] => .ok []
  | b :: bs =>
    if isBlankByte b then attributesFrom size bs
    else
      match h : rawAttribute size b bs with
      | .error fault => .error (.tag fault)
      | .ok a =>
        have : a.rest.length ≤ bs.length := (rawAttribute_suffix h).length_le
        match a.decode with
        | .error fault => .error (.reader fault)
        | .ok pair => (attributesFrom size a.rest).map (pair :: ·)
  termination_by bs.length

/-- The attributes of a tag. -/
def tagAttributes (content : Bytes) : Except DocumentFault Attributes :=
  attributesFrom content.length (content.dropWhile fun b => !isBlankByte b)

end MissionText.Xml
