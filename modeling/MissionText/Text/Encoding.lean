/-
  The encoding of a file, told from its first bytes.

  Files that start with a byte order mark are brought to UTF-8, without the
  mark and with U+FFFD for what cannot be decoded.  All other files are taken
  as they are.  Files of fewer than three bytes are too short to be told apart
  and also stay as they are.
-/
import MissionText.Text.Utf16

namespace MissionText

/-- What the first bytes of a file say about its encoding. -/
inductive Encoding where
  /-- No byte order mark: the bytes as they are. -/
  | unmarked
  | utf8
  | utf16 (order : Utf16.ByteOrder)
  deriving Repr, DecidableEq

/-- The encoding of a file and the bytes after the mark. -/
def Encoding.detect : Bytes → Encoding × Bytes
  | 0xEF :: 0xBB :: 0xBF :: bs => (.utf8, bs)
  | 0xFF :: 0xFE :: b :: bs => (.utf16 .little, b :: bs)
  | 0xFE :: 0xFF :: b :: bs => (.utf16 .big, b :: bs)
  | bs => (.unmarked, bs)

/-- The content of a file in UTF-8. -/
def Encoding.toUtf8 (bs : Bytes) : Bytes :=
  match Encoding.detect bs with
  | (.unmarked, rest) => rest
  | (.utf8, rest) => Utf8.encode (Utf8.decodeLossy rest)
  | (.utf16 order, rest) => Utf8.encode (Utf16.decode order rest)

end MissionText
