/-
  UTF-8: a decoder that classifies every byte sequence, and its two uses.

  The decoder reads byte by byte.  Inside a character it remembers how many
  bytes are owed and which range the next one must fall in (`Pending`), so
  that over-long forms, surrogates and values above U+10FFFF are refused at
  the first byte that rules them out.

  * `pieces` splits the bytes into characters and faulty sequences: a
    `malformed` one is refused by the byte after it, a `truncated` one by the
    end of the input.
  * `decode` is the strict reading, which fails at the first faulty sequence;
    `decodeLossy` puts U+FFFD in the place of each.
  * `encode` writes the characters.
-/

namespace MissionText

/-- A sequence of octets. -/
abbrev Bytes := List UInt8

namespace Utf8

/-- The bytes of a text. -/
def encode (cs : List Char) : Bytes :=
  cs.flatMap String.utf8EncodeChar

/-! ## The decoder -/

/-- One unit of decoded input. -/
inductive Piece where
  /-- A character. -/
  | char (c : Char)
  /-- A sequence of `length` bytes that starts no character. -/
  | malformed (length : Nat)
  /-- A start of a character that the end of the input cuts off. -/
  | truncated
  deriving Repr, DecidableEq

/-- A character read in part: the number of bytes seen and still owed, the
    range of the next byte, and the bits so far. -/
structure Pending where
  seen : Nat
  owed : Nat
  low : UInt8
  high : UInt8
  bits : Nat
  deriving Repr, DecidableEq

/-- The decoder between bytes: between characters or inside one. -/
abbrev State := Option Pending

/-- The first byte of a character. -/
def start (b : UInt8) : List Piece × State :=
  if b < 0x80 then ([.char (Char.ofNat b.toNat)], none)
  else if 0xC2 ≤ b && b ≤ 0xDF then ([], some ⟨1, 1, 0x80, 0xBF, b.toNat - 0xC0⟩)
  else if 0xE0 ≤ b && b ≤ 0xEF then
    ([], some ⟨1, 2, if b == 0xE0 then 0xA0 else 0x80, if b == 0xED then 0x9F else 0xBF,
      b.toNat - 0xE0⟩)
  else if 0xF0 ≤ b && b ≤ 0xF4 then
    ([], some ⟨1, 3, if b == 0xF0 then 0x90 else 0x80, if b == 0xF4 then 0x8F else 0xBF,
      b.toNat - 0xF0⟩)
  else ([.malformed 1], none)

/-- One byte.  A byte that cannot continue the pending character makes that
    one malformed and starts afresh. -/
def step : State → UInt8 → List Piece × State
  | none, b => start b
  | some p, b =>
    if p.low ≤ b && b ≤ p.high then
      let bits := p.bits * 64 + (b.toNat - 0x80)
      if p.owed ≤ 1 then ([.char (Char.ofNat bits)], none)
      else ([], some ⟨p.seen + 1, p.owed - 1, 0x80, 0xBF, bits⟩)
    else (.malformed p.seen :: (start b).1, (start b).2)

/-- The pieces of the bytes that follow a state. -/
def piecesFrom : State → Bytes → List Piece
  | none, [] => []
  | some _, [] => [.truncated]
  | s, b :: bs => (step s b).1 ++ piecesFrom (step s b).2 bs

/-- The pieces of a byte sequence. -/
def pieces (bs : Bytes) : List Piece :=
  piecesFrom none bs

/-! ## Strict and lossy reading -/

/-- Why bytes are not UTF-8. -/
inductive Fault where
  /-- A malformed sequence of `length` bytes at byte `index`. -/
  | invalid (length index : Nat)
  /-- The bytes end inside the character that starts at byte `index`. -/
  | incomplete (index : Nat)
  deriving Repr, DecidableEq

/-- The wording of a fault. -/
def Fault.message : Fault → String
  | .invalid length index =>
    "invalid utf-8 sequence of " ++ toString length ++ " bytes from index " ++ toString index
  | .incomplete index => "incomplete utf-8 byte sequence from index " ++ toString index

/-- The characters of pieces that start at byte `index`, or the first fault. -/
def charsAt (index : Nat) : List Piece → Except Fault (List Char)
  | [] => .ok []
  | .char c :: ps => (charsAt (index + c.utf8Size) ps).map (c :: ·)
  | .malformed length :: _ => .error (.invalid length index)
  | .truncated :: _ => .error (.incomplete index)

/-- The characters of a byte sequence, or its first fault. -/
def decode (bs : Bytes) : Except Fault (List Char) :=
  charsAt 0 (pieces bs)

/-- The character that stands for a piece where faults are tolerated. -/
def Piece.replaced : Piece → Char
  | .char c => c
  | .malformed _ | .truncated => '\uFFFD'

/-- The characters of a byte sequence, with U+FFFD for each faulty piece. -/
def decodeLossy (bs : Bytes) : List Char :=
  (pieces bs).map Piece.replaced

end Utf8

/-- The bytes of a text in UTF-8. -/
def utf8 (s : String) : Bytes :=
  Utf8.encode s.toList

/-- The text that bytes hold in UTF-8, with U+FFFD for each faulty sequence. -/
def lossyText (bs : Bytes) : String :=
  String.ofList (Utf8.decodeLossy bs)

end MissionText
