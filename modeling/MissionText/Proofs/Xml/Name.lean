/-
  Names without a prefix.

  * `IsPlainName` are the XML names without a colon.
  * Such a name can be written as a tag and as the key of an attribute
    (`IsPlainName.isTagName`, `IsPlainName.isAttributeKey`), and it is what the
    reader makes of it (`IsPlainName.localName_eq`).
-/
import MissionText.Proofs.Xml.Tag

namespace MissionText

open Xml

/-- The character may start a name: a letter, an underscore, or anything that is
    not ASCII. -/
def isNameStart (c : Char) : Bool :=
  c.isAlpha || c == '_' || 0x80 ≤ c.toNat

/-- The character may stand in a name. -/
def isNameChar (c : Char) : Bool :=
  isNameStart c || c.isDigit || c == '-' || c == '.'

/-- An XML name without a colon. -/
def IsPlainName (name : String) : Prop :=
  (∃ c, name.toList.head? = some c ∧ isNameStart c = true) ∧
    ∀ c ∈ name.toList, isNameChar c = true

instance (name : String) : Decidable (IsPlainName name) :=
  decidable_of_iff (name.toList.head?.any isNameStart = true ∧ name.toList.all isNameChar = true)
    (by simp [IsPlainName, Option.any_eq_true])

namespace IsPlainName

variable {name : String}

theorem notMem (h : IsPlainName name) {c : Char} (hc : isNameChar c = false) : c ∉ name.toList := by
  intro hm
  rw [h.2 c hm] at hc
  cases hc

/-- The bytes of an ASCII character that is not part of names do not occur. -/
theorem ne_of_mem (h : IsPlainName name) {b : UInt8} (hb : b ∈ utf8 name) {c : Char}
    (hascii : c.toNat < 0x80) (hc : isNameChar c = false) : b ≠ c.toUInt8 := by
  rintro rfl
  exact h.notMem hc ((toUInt8_mem_utf8 hascii).1 hb)

theorem isBlankByte_eq_false (h : IsPlainName name) {b : UInt8} (hb : b ∈ utf8 name) :
    isBlankByte b = false := by
  have hspace : b ≠ 0x20 := h.ne_of_mem (c := ' ') hb (by decide) (by decide)
  have htab : b ≠ 0x09 := h.ne_of_mem (c := '\t') hb (by decide) (by decide)
  have hline : b ≠ 0x0A := h.ne_of_mem (c := '\n') hb (by decide) (by decide)
  have hreturn : b ≠ 0x0D := h.ne_of_mem (c := '\r') hb (by decide) (by decide)
  simp [isBlankByte, hspace, htab, hline, hreturn]

theorem ne_delimiters (h : IsPlainName name) {b : UInt8} (hb : b ∈ utf8 name) :
    b ≠ '"'.toUInt8 ∧ b ≠ '\''.toUInt8 ∧ b ≠ '>'.toUInt8 :=
  ⟨h.ne_of_mem hb (by decide) (by decide), h.ne_of_mem hb (by decide) (by decide),
    h.ne_of_mem hb (by decide) (by decide)⟩

theorem isTagName (h : IsPlainName name) : IsTagName name := by
  refine ⟨?_, ?_, ?_, ?_⟩
  · intro b hb
    exact h.isBlankByte_eq_false hb
  · intro b hb
    have hmem : b ∈ utf8 name := List.mem_of_mem_head? hb
    exact ⟨h.ne_of_mem hmem (by decide) (by decide), h.ne_of_mem hmem (by decide) (by decide),
      h.ne_of_mem hmem (by decide) (by decide)⟩
  · intro hlast
    exact h.ne_of_mem (List.mem_of_getLast? hlast) (by decide) (by decide) rfl
  · have hbalanced : IsBalanced (utf8 name) := by
      refine IsBalanced.of_plain ?_
      intro b hb
      exact h.ne_delimiters hb
    have hend : cutTag none ['>'.toUInt8] = some ([], []) := rfl
    rw [hbalanced, hend, Option.map_some, List.append_nil]

theorem isAttributeKey (h : IsPlainName name) : IsAttributeKey name := by
  constructor
  · obtain ⟨⟨c, hc, -⟩, -⟩ := h
    intro hnil
    have hempty : lossyText (utf8 name) = "" := by
      rw [hnil]
      rfl
    rw [lossyText_utf8] at hempty
    rw [hempty] at hc
    cases hc
  · intro b hb
    have hequals : b ≠ '='.toUInt8 := h.ne_of_mem hb (by decide) (by decide)
    refine ⟨?_, h.ne_delimiters hb⟩
    simp [isKeyByte, hequals, h.isBlankByte_eq_false hb]

theorem localName_eq (h : IsPlainName name) : localName name = name :=
  localName_eq_self (h.notMem (by decide))

end IsPlainName

end MissionText
