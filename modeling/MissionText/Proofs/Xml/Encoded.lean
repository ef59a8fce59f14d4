/-
  Documents in any encoding.

  A text is written in an `Encoding` as the byte order mark of the encoding and
  the bytes of the text.

  * `Encoding.toUtf8_write`: the mark is found and dropped, and the text is brought
    to UTF-8 as it was.
  * `parseDocument_write`: so a document is the same in every encoding.  The empty
    text in UTF-16 is a mark alone, too short to be found, but no document either.
  * `read_write`: stringtables and interchange documents are read alike in every
    encoding, with the same value or the same error.
-/
import MissionText.Proofs.Text.Utf16
import MissionText.Proofs.Xml.RoundTrip
import MissionText.Stringtable
import MissionText.Xliff.Codec

namespace MissionText

/-! ## Texts in an encoding -/

namespace Encoding

/-- The byte order mark of an encoding. -/
def mark : Encoding → Bytes
  | unmarked => []
  | utf8 => [0xEF, 0xBB, 0xBF]
  | utf16 .little => [0xFF, 0xFE]
  | utf16 .big => [0xFE, 0xFF]

/-- The bytes of a text in an encoding, without a mark. -/
def bytes (s : String) : Encoding → Bytes
  | unmarked | utf8 => MissionText.utf8 s
  | utf16 order => Utf16.encode order s.toList

/-- A file that holds a text in an encoding. -/
def write (e : Encoding) (s : String) : Bytes := e.mark ++ e.bytes s

/-- The bytes of a text that does not start with a byte order mark do not start
    with one in any encoding. -/
theorem detect_utf8 {s : String} (h : s.toList.head? ≠ some '\uFEFF') :
    detect (MissionText.utf8 s) = (.unmarked, MissionText.utf8 s) := by
  have hpieces : Utf8.pieces (MissionText.utf8 s) = s.toList.map .char :=
    Utf8.pieces_encode s.toList
  -- What the decoder makes of the three marks is not how the text starts.
  unfold detect
  split
  · next bs heq =>
    have hmark : Utf8.pieces (0xEF :: 0xBB :: 0xBF :: bs) = .char '\uFEFF' :: Utf8.pieces bs :=
      Utf8.piecesFrom_encodeChar '\uFEFF' bs
    rw [heq, hmark] at hpieces
    obtain ⟨c, cs, hs, hc, -⟩ := List.map_eq_cons_iff.1 hpieces.symm
    rw [hs, List.head?_cons, Utf8.Piece.char.inj hc] at h
    exact absurd rfl h
  · next b bs heq =>
    rw [heq] at hpieces
    obtain ⟨c, cs, -, hc, -⟩ := List.map_eq_cons_iff.1 hpieces.symm
    cases hc
  · next b bs heq =>
    rw [heq] at hpieces
    obtain ⟨c, cs, -, hc, -⟩ := List.map_eq_cons_iff.1 hpieces.symm
    cases hc
  · rfl

/-- **A text is found in what is written of it**, unless that is a mark alone. -/
theorem toUtf8_write {s : String} (h : s.toList.head? ≠ some '\uFEFF') (e : Encoding)
    (hs : s = "" → ∀ order, e ≠ utf16 order) : toUtf8 (e.write s) = MissionText.utf8 s := by
  have hlossy : Utf8.encode (Utf8.decodeLossy (MissionText.utf8 s)) = MissionText.utf8 s := by
    rw [MissionText.utf8, Utf8.decodeLossy_encode]
  have hwide (order : Utf16.ByteOrder) (he : e = utf16 order) :
      ∃ b bs, Utf16.encode order s.toList = b :: bs := by
    refine List.exists_cons_of_ne_nil (Utf16.encode_ne_nil order fun hnil => ?_)
    exact hs (String.toList_eq_nil_iff.1 hnil) order he
  cases e with
  | unmarked =>
    rw [write, mark, bytes, List.nil_append, toUtf8, detect_utf8 h]
  | utf8 => exact hlossy
  | utf16 order =>
    have hdecode : Utf8.encode (Utf16.decode order (Utf16.encode order s.toList)) =
        MissionText.utf8 s := by
      rw [Utf16.decode_encode]
      rfl
    obtain ⟨b, bs, hb⟩ := hwide order rfl
    rw [hb] at hdecode
    rw [write, bytes, hb]
    cases order with
    | little => exact hdecode
    | big => exact hdecode

end Encoding

/-! ## Documents -/

namespace Xml

theorem dropMark_suffix (bs : Bytes) : dropMark bs <:+ bs := by
  unfold dropMark
  split
  · next bs => exact List.suffix_append [0xEF, 0xBB, 0xBF] bs
  · exact List.suffix_rfl

/-- Bytes without markup are text outside of elements, which is skipped. -/
theorem parseDocument_of_no_markup {bs : Bytes} (h : '<'.toUInt8 ∉ bs) :
    parseDocument bs = .error .noRoot := by
  have hnil : readEvents [] [] = ([], none) := by rw [readEvents]
  have hraw : '<'.toUInt8 ∉ dropMark bs := fun hmem => h ((dropMark_suffix bs).mem hmem)
  rw [parseDocument]
  rcases hbs : dropMark bs with _ | ⟨b, rest⟩
  · rw [hnil]
    rfl
  · rw [hbs] at hraw
    have hend : StartsMarkup [] := fun _ hstart => by cases hstart
    have htext := readEvents_text [] (List.cons_ne_nil b rest) hraw hend
    rw [List.append_nil, hnil] at htext
    rw [htext]
    rfl

/-- **A document is the same in every encoding.** -/
theorem parseDocument_write {s : String} (h : s.toList.head? ≠ some '\uFEFF') (e : Encoding) :
    parseDocument (Encoding.toUtf8 (e.write s)) = parseDocument (utf8 s) := by
  by_cases hs : s = "" → ∀ order, e ≠ .utf16 order
  · rw [Encoding.toUtf8_write h e hs]
  · obtain ⟨rfl, horder⟩ := not_forall.1 hs
    obtain ⟨order, he⟩ := not_forall_not.1 horder
    rw [he]
    have hmark : '<'.toUInt8 ∉ Encoding.toUtf8 ((Encoding.utf16 order).write "") := by
      cases order <;> decide
    have hempty : '<'.toUInt8 ∉ utf8 "" := List.not_mem_nil
    rw [parseDocument_of_no_markup hmark, parseDocument_of_no_markup hempty]

end Xml

/-- **The encoding of a document does not matter**: what it is read as, be it a
    value or an error, is what its text is read as. -/
theorem read_write (s : String) (h : s.toList.head? ≠ some '\uFEFF') (e : Encoding) :
    Stringtable.read (e.write s) = Stringtable.readText s ∧
      Xliff.Document.read (e.write s) = Xliff.Document.readText s := by
  have hparse := Xml.parseDocument_write h e
  constructor
  · rw [Stringtable.read, Stringtable.readText, Stringtable.readUtf8, hparse]
    rfl
  · rw [Xliff.Document.read, Xliff.Document.readText, Xliff.Document.readUtf8, hparse]
    rfl

/-- A document with a character above U+FFFF and a fault that is quoted, in
    UTF-16. -/
theorem read_write_astral :
    ("<Project>𝄞</Projekt>".toList.head? ≠ some '\uFEFF') ∧
      Stringtable.read ((Encoding.utf16 .big).write "<Project>𝄞</Projekt>") =
          Stringtable.readText "<Project>𝄞</Projekt>" ∧
        Xliff.Document.read ((Encoding.utf16 .big).write "<Project>𝄞</Projekt>") =
          Xliff.Document.readText "<Project>𝄞</Projekt>" :=
  ⟨by decide, read_write _ (by decide) (.utf16 .big)⟩

end MissionText
