/-
  UTF-16 in either byte order.

  * `encode` writes the code units of a text, a character above U+FFFF as a
    surrogate pair.
  * `decode` is lossy: a surrogate without its partner becomes U+FFFD, and
    what is left open at the end of the input, be it half a code unit, a high
    surrogate or both, becomes one U+FFFD.
-/
import MissionText.Text.Utf8

namespace MissionText.Utf16

/-- The order of the two bytes of a code unit. -/
inductive ByteOrder where
  | little
  | big
  deriving Repr, DecidableEq

/-- The code unit of two bytes. -/
def ByteOrder.unit : ByteOrder → UInt8 → UInt8 → Nat
  | .little, a, b => a.toNat + 256 * b.toNat
  | .big, a, b => 256 * a.toNat + b.toNat

/-- The two bytes of a code unit. -/
def ByteOrder.bytes (order : ByteOrder) (unit : Nat) : Bytes :=
  match order with
  | .little => [UInt8.ofNat (unit % 256), UInt8.ofNat (unit / 256)]
  | .big => [UInt8.ofNat (unit / 256), UInt8.ofNat (unit % 256)]

/-! ## Writing -/

/-- The code units of a character. -/
def unitsOfChar (c : Char) : List Nat :=
  let n := c.toNat
  if n < 0x10000 then [n]
  else [0xD800 + (n - 0x10000) / 0x400, 0xDC00 + (n - 0x10000) % 0x400]

/-- The bytes of a text. -/
def encode (order : ByteOrder) (cs : List Char) : Bytes :=
  cs.flatMap fun c => (unitsOfChar c).flatMap order.bytes

/-! ## Reading -/

/-- The unit is the first half of a surrogate pair. -/
def isHighSurrogate (unit : Nat) : Bool := 0xD800 ≤ unit && unit < 0xDC00

/-- The unit is the second half of a surrogate pair. -/
def isLowSurrogate (unit : Nat) : Bool := 0xDC00 ≤ unit && unit < 0xE000

/-- One code unit, after a pending high surrogate or none: the characters that
    it completes and the high surrogate that it leaves pending. -/
def step (pending : Option Nat) (unit : Nat) : List Char × Option Nat :=
  match pending with
  | some high =>
    if isLowSurrogate unit then
      ([Char.ofNat (0x10000 + (high - 0xD800) * 0x400 + (unit - 0xDC00))], none)
    else if isHighSurrogate unit then (['\uFFFD'], some unit)
    else (['\uFFFD', Char.ofNat unit], none)
  | none =>
    if isHighSurrogate unit then ([], some unit)
    else if isLowSurrogate unit then (['\uFFFD'], none)
    else ([Char.ofNat unit], none)

/-- The characters of the bytes that follow a pending high surrogate or none. -/
def decodeFrom (order : ByteOrder) : Option Nat → Bytes → List Char
  | pending, a :: b :: bs =>
    (step pending (order.unit a b)).1 ++
      decodeFrom order (step pending (order.unit a b)).2 bs
  | _, [_] => ['\uFFFD']
  | some _, [] => ['\uFFFD']
  | none, [] => []

/-- The characters of a byte sequence. -/
def decode (order : ByteOrder) (bs : Bytes) : List Char :=
  decodeFrom order none bs

end MissionText.Utf16
