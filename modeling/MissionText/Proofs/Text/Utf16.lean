/-
  UTF-16: what is written is read again, in either byte order.

  * `decodeFrom_bytes`: two bytes are read as one step with their code unit.
  * `decodeFrom_encodeChar`: the units of a character are read as that character,
    whatever follows, be it one unit or a surrogate pair.
  * `decode_encode`: so a written text is read as it was.
-/
import MissionText.Proofs.Text.Utf8
import MissionText.Text.Utf16

namespace MissionText.Utf16

/-! ## Code units -/

/-- A code unit has two bytes, of which it is the unit. -/
theorem ByteOrder.bytes_eq (order : ByteOrder) {unit : Nat} (h : unit < 0x10000) :
    ∃ a b, order.bytes unit = [a, b] ∧ order.unit a b = unit := by
  have hlow : (UInt8.ofNat (unit % 256)).toNat = unit % 256 :=
    UInt8.toNat_ofNat_of_lt' (show _ < 256 by omega)
  have hhigh : (UInt8.ofNat (unit / 256)).toNat = unit / 256 :=
    UInt8.toNat_ofNat_of_lt' (show _ < 256 by omega)
  cases order with
  | little =>
    refine ⟨_, _, rfl, ?_⟩
    rw [ByteOrder.unit, hlow, hhigh]
    omega
  | big =>
    refine ⟨_, _, rfl, ?_⟩
    rw [ByteOrder.unit, hlow, hhigh]
    omega

/-- **Two bytes are read as their code unit**, after whatever is pending. -/
theorem decodeFrom_bytes (order : ByteOrder) (pending : Option Nat) {unit : Nat}
    (h : unit < 0x10000) (bs : Bytes) :
    decodeFrom order pending (order.bytes unit ++ bs) =
      (step pending unit).1 ++ decodeFrom order (step pending unit).2 bs := by
  obtain ⟨a, b, hbytes, hunit⟩ := order.bytes_eq h
  rw [hbytes, List.cons_append, List.singleton_append, decodeFrom, hunit]

theorem step_none_of_not_surrogate {unit : Nat} (h : unit < 0xD800 ∨ 0xDFFF < unit) :
    step none unit = ([Char.ofNat unit], none) := by
  have hhigh : isHighSurrogate unit = false := by
    rw [isHighSurrogate, Bool.and_eq_false_iff, decide_eq_false_iff_not, decide_eq_false_iff_not]
    omega
  have hlow : isLowSurrogate unit = false := by
    rw [isLowSurrogate, Bool.and_eq_false_iff, decide_eq_false_iff_not, decide_eq_false_iff_not]
    omega
  simp only [step, hhigh, hlow, Bool.false_eq_true, if_false]

theorem step_none_of_high {unit : Nat} (h : 0xD800 ≤ unit) (h' : unit < 0xDC00) :
    step none unit = ([], some unit) := by
  have hhigh : isHighSurrogate unit = true := by
    rw [isHighSurrogate, Bool.and_eq_true, decide_eq_true_iff, decide_eq_true_iff]
    exact ⟨h, h'⟩
  rw [step, if_pos hhigh]

theorem step_some_of_low (high : Nat) {unit : Nat} (h : 0xDC00 ≤ unit) (h' : unit < 0xE000) :
    step (some high) unit =
      ([Char.ofNat (0x10000 + (high - 0xD800) * 0x400 + (unit - 0xDC00))], none) := by
  have hlow : isLowSurrogate unit = true := by
    rw [isLowSurrogate, Bool.and_eq_true, decide_eq_true_iff, decide_eq_true_iff]
    exact ⟨h, h'⟩
  rw [step, if_pos hlow]

/-! ## Texts -/

/-- **A written character is read as that character**, whatever follows. -/
theorem decodeFrom_encodeChar (order : ByteOrder) (c : Char) (bs : Bytes) :
    decodeFrom order none ((unitsOfChar c).flatMap order.bytes ++ bs) =
      c :: decodeFrom order none bs := by
  have hc : Char.ofNat c.toNat = c := Char.ofNat_toNat c
  have hv : c.toNat < 0xD800 ∨ 0xDFFF < c.toNat ∧ c.toNat < 0x110000 := Utf8.toNat_valid c
  rw [unitsOfChar]
  generalize c.toNat = n at hc hv
  split_ifs with h
  · rw [List.flatMap_singleton, decodeFrom_bytes order none h,
      step_none_of_not_surrogate (by omega), hc]
    rfl
  · have hjoined : 0x10000 + (0xD800 + (n - 0x10000) / 0x400 - 0xD800) * 0x400 +
        (0xDC00 + (n - 0x10000) % 0x400 - 0xDC00) = n := by
      omega
    rw [List.flatMap_cons, List.flatMap_singleton, List.append_assoc,
      decodeFrom_bytes order none (by omega), step_none_of_high (by omega) (by omega),
      decodeFrom_bytes order _ (by omega), step_some_of_low _ (by omega) (by omega), hjoined, hc]
    rfl

/-- **Written text is read as it was.** -/
theorem decode_encode (order : ByteOrder) (cs : List Char) : decode order (encode order cs) = cs := by
  unfold decode encode
  induction cs with
  | nil => cases order <;> rfl
  | cons c cs ih => rw [List.flatMap_cons, decodeFrom_encodeChar, ih]

/-- A text has at least one byte. -/
theorem encode_ne_nil (order : ByteOrder) {cs : List Char} (h : cs ≠ []) :
    encode order cs ≠ [] := by
  intro hnil
  have hread := decode_encode order cs
  rw [hnil] at hread
  exact h (hread.symm.trans (by cases order <;> rfl))

end MissionText.Utf16
