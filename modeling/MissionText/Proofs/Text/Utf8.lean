/-
  UTF-8: what is written is read again, and where the bytes of ASCII stand.

  * `pieces_encode`: the decoder splits written text into its characters, so
    that both the strict reading (`decode_encode`) and the lossy one
    (`decodeLossy_encode`) give the text back.
  * `toUInt8_mem_encode`: a byte below 0x80 stands in written text only for the
    character of its own number.  Whatever looks for ASCII bytes can therefore
    work on bytes and be understood on characters (`dropWhile_encode`).
  * `encode_lt_encode`: bytes are in the order of the characters.
-/
import Mathlib.Tactic.Common
import MissionText.Text.Utf8

namespace MissionText

namespace Utf8

/-! ## The decoder on one written character -/

theorem piecesFrom_ascii {n : Nat} (h : n < 0x80) (bs : Bytes) :
    piecesFrom none (UInt8.ofNat n :: bs) = .char (Char.ofNat n) :: piecesFrom none bs := by
  have hn : (UInt8.ofNat n).toNat = n :=
    UInt8.toNat_ofNat_of_lt' (show _ < 256 by omega)
  have hlt : UInt8.ofNat n < 0x80 := by rw [UInt8.lt_iff_toNat_lt, hn]; exact h
  simp only [piecesFrom, step, start, if_pos hlt, hn, List.singleton_append]

theorem piecesFrom_tail {p : Pending} {n : Nat} (hlow : p.low.toNat ≤ n % 64 + 0x80)
    (hhigh : n % 64 + 0x80 ≤ p.high.toNat) (bs : Bytes) :
    piecesFrom (some p) (UInt8.ofNat (n % 64 + 0x80) :: bs) =
      if p.owed ≤ 1 then .char (Char.ofNat (p.bits * 64 + n % 64)) :: piecesFrom none bs
      else piecesFrom (some ⟨p.seen + 1, p.owed - 1, 0x80, 0xBF, p.bits * 64 + n % 64⟩) bs := by
  have hn : (UInt8.ofNat (n % 64 + 0x80)).toNat = n % 64 + 0x80 :=
    UInt8.toNat_ofNat_of_lt' (show _ < 256 by omega)
  have hr : (p.low ≤ UInt8.ofNat (n % 64 + 0x80) && UInt8.ofNat (n % 64 + 0x80) ≤ p.high) = true := by
    rw [Bool.and_eq_true, decide_eq_true_iff, decide_eq_true_iff, UInt8.le_iff_toNat_le,
      UInt8.le_iff_toNat_le, hn]
    exact ⟨hlow, hhigh⟩
  have hb : n % 64 + 0x80 - 0x80 = n % 64 := by omega
  simp only [piecesFrom, step, if_pos hr, hn, hb]
  split <;> rfl

theorem piecesFrom_two {n : Nat} (h₁ : 2 ≤ n) (h₂ : n < 0x20) (bs : Bytes) :
    piecesFrom none (UInt8.ofNat (n + 0xC0) :: bs) =
      piecesFrom (some ⟨1, 1, 0x80, 0xBF, n⟩) bs := by
  have hn : (UInt8.ofNat (n + 0xC0)).toNat = n + 0xC0 :=
    UInt8.toNat_ofNat_of_lt' (show _ < 256 by omega)
  have hb : n + 0xC0 - 0xC0 = n := by omega
  simp only [piecesFrom, step, start, UInt8.lt_iff_toNat_lt, UInt8.le_iff_toNat_le, hn, hb,
    UInt8.reduceToNat, Bool.and_eq_true, decide_eq_true_eq]
  rw [if_neg (by omega), if_pos (by omega)]
  rfl

theorem piecesFrom_three {n : Nat} (h : n < 0x10) (bs : Bytes) :
    piecesFrom none (UInt8.ofNat (n + 0xE0) :: bs) =
      piecesFrom (some ⟨1, 2, if n = 0 then 0xA0 else 0x80, if n = 13 then 0x9F else 0xBF, n⟩) bs := by
  have hn : (UInt8.ofNat (n + 0xE0)).toNat = n + 0xE0 :=
    UInt8.toNat_ofNat_of_lt' (show _ < 256 by omega)
  have hb : n + 0xE0 - 0xE0 = n := by omega
  have hlow : (n + 0xE0 = 0xE0) = (n = 0) := by rw [eq_iff_iff]; omega
  have hhigh : (n + 0xE0 = 0xED) = (n = 13) := by rw [eq_iff_iff]; omega
  simp only [piecesFrom, step, start, UInt8.lt_iff_toNat_lt, UInt8.le_iff_toNat_le, hn, hb,
    UInt8.reduceToNat, Bool.and_eq_true, decide_eq_true_eq, beq_iff_eq, ← UInt8.toNat_inj, hlow,
    hhigh]
  rw [if_neg (by omega), if_neg (by omega), if_pos (by omega)]
  rfl

theorem piecesFrom_four {n : Nat} (h : n ≤ 4) (bs : Bytes) :
    piecesFrom none (UInt8.ofNat (n + 0xF0) :: bs) =
      piecesFrom (some ⟨1, 3, if n = 0 then 0x90 else 0x80, if n = 4 then 0x8F else 0xBF, n⟩) bs := by
  have hn : (UInt8.ofNat (n + 0xF0)).toNat = n + 0xF0 :=
    UInt8.toNat_ofNat_of_lt' (show _ < 256 by omega)
  have hb : n + 0xF0 - 0xF0 = n := by omega
  have hlow : (n + 0xF0 = 0xF0) = (n = 0) := by rw [eq_iff_iff]; omega
  have hhigh : (n + 0xF0 = 0xF4) = (n = 4) := by rw [eq_iff_iff]; omega
  simp only [piecesFrom, step, start, UInt8.lt_iff_toNat_lt, UInt8.le_iff_toNat_le, hn, hb,
    UInt8.reduceToNat, Bool.and_eq_true, decide_eq_true_eq, beq_iff_eq, ← UInt8.toNat_inj, hlow,
    hhigh]
  rw [if_neg (by omega), if_neg (by omega), if_neg (by omega), if_pos (by omega)]
  rfl

/-- A code point is no surrogate and at most U+10FFFF. -/
theorem toNat_valid (c : Char) : c.toNat < 0xD800 ∨ 0xDFFF < c.toNat ∧ c.toNat < 0x110000 :=
  c.valid

/-- **A written character is read as that character**, whatever follows. -/
theorem piecesFrom_encodeChar (c : Char) (bs : Bytes) :
    piecesFrom none (String.utf8EncodeChar c ++ bs) = .char c :: piecesFrom none bs := by
  have hc : Char.ofNat c.val.toNat = c := Char.ofNat_toNat c
  have hv : c.val.toNat < 0xD800 ∨ 0xDFFF < c.val.toNat ∧ c.val.toNat < 0x110000 := toNat_valid c
  generalize hn : c.val.toNat = n at hc hv
  unfold String.utf8EncodeChar
  simp only [hn]
  split_ifs with h₁ h₂ h₃
  · rw [List.singleton_append, piecesFrom_ascii (by omega), hc]
  · rw [List.cons_append, List.singleton_append, piecesFrom_two (by omega) (by omega),
      piecesFrom_tail (by simp) (by simp; omega), if_pos (by simp)]
    rw [show n / 64 % 32 * 64 + n % 64 = n by omega, hc]
  · rw [List.cons_append, List.cons_append, List.singleton_append, piecesFrom_three (by omega),
      piecesFrom_tail (by split_ifs <;> simp <;> omega) (by split_ifs <;> simp <;> omega),
      if_neg (by simp), piecesFrom_tail (by simp) (by simp; omega), if_pos (by simp)]
    rw [show (n / 4096 % 16 * 64 + n / 64 % 64) * 64 + n % 64 = n by omega, hc]
  · rw [List.cons_append, List.cons_append, List.cons_append, List.singleton_append,
      piecesFrom_four (by omega),
      piecesFrom_tail (by split_ifs <;> simp <;> omega) (by split_ifs <;> simp <;> omega),
      if_neg (by simp), piecesFrom_tail (by simp) (by simp; omega), if_neg (by simp),
      piecesFrom_tail (by simp) (by simp; omega), if_pos (by simp)]
    rw [show ((n / 262144 % 8 * 64 + n / 4096 % 64) * 64 + n / 64 % 64) * 64 + n % 64 = n by omega,
      hc]

/-! ## Written text -/

theorem encode_append (cs ds : List Char) : encode (cs ++ ds) = encode cs ++ encode ds :=
  List.flatMap_append

theorem encode_cons (c : Char) (cs : List Char) :
    encode (c :: cs) = String.utf8EncodeChar c ++ encode cs :=
  List.flatMap_cons

/-- **Written text is split into its characters.** -/
theorem pieces_encode (cs : List Char) : pieces (encode cs) = cs.map .char := by
  unfold pieces
  induction cs with
  | nil => rfl
  | cons c cs ih => rw [encode_cons, piecesFrom_encodeChar, ih, List.map_cons]

theorem charsAt_chars (cs : List Char) (index : Nat) :
    charsAt index (cs.map .char) = .ok cs := by
  induction cs generalizing index with
  | nil => rfl
  | cons c cs ih => rw [List.map_cons, charsAt, ih]; rfl

theorem decode_encode (cs : List Char) : decode (encode cs) = .ok cs := by
  rw [decode, pieces_encode, charsAt_chars]

theorem decodeLossy_encode (cs : List Char) : decodeLossy (encode cs) = cs := by
  rw [decodeLossy, pieces_encode, List.map_map]
  exact List.map_id cs

/-! ## Bytes of ASCII -/

theorem encodeChar_ascii {c : Char} (h : c.toNat < 0x80) :
    String.utf8EncodeChar c = [UInt8.ofNat c.toNat] := by
  have h' : c.val.toNat ≤ 0x7f := by change c.toNat ≤ 0x7f; omega
  unfold String.utf8EncodeChar
  rw [if_pos h']
  rfl

theorem le_of_mem_encodeChar {c : Char} (h : 0x80 ≤ c.toNat) {b : UInt8}
    (hb : b ∈ String.utf8EncodeChar c) : 0x80 ≤ b.toNat := by
  have hv : c.val.toNat < 0xD800 ∨ 0xDFFF < c.val.toNat ∧ c.val.toNat < 0x110000 := toNat_valid c
  change 0x80 ≤ c.val.toNat at h
  unfold String.utf8EncodeChar at hb
  generalize c.val.toNat = n at hb h hv
  simp only at hb
  split_ifs at hb with h₁ h₂ h₃
  · omega
  all_goals
    simp only [List.mem_cons, List.not_mem_nil, or_false] at hb
    rcases hb with rfl | rfl | rfl | rfl <;>
      rw [UInt8.toNat_ofNat_of_lt' (show _ < 256 by omega)] <;> omega

/-- Only the character itself is written with the byte of a character of
    ASCII. -/
theorem toUInt8_mem_encodeChar {c : Char} (h : c.toNat < 0x80) {d : Char} :
    c.toUInt8 ∈ String.utf8EncodeChar d ↔ c = d := by
  have hc : c.toUInt8.toNat = c.toNat := Nat.mod_eq_of_lt (show c.toNat < 256 by omega)
  constructor
  · intro hm
    by_cases hd : d.toNat < 0x80
    · rw [encodeChar_ascii hd, List.mem_singleton] at hm
      have hcd : c.toNat = d.toNat := by
        rw [← hc, hm, UInt8.toNat_ofNat_of_lt' (show _ < 256 by omega)]
      rw [← Char.ofNat_toNat c, hcd, Char.ofNat_toNat]
    · have := le_of_mem_encodeChar (by omega) hm
      omega
  · rintro rfl
    rw [encodeChar_ascii h]
    exact List.mem_singleton_self _

theorem toUInt8_mem_encode {c : Char} (h : c.toNat < 0x80) {cs : List Char} :
    c.toUInt8 ∈ encode cs ↔ c ∈ cs := by
  simp only [encode, List.mem_flatMap, toUInt8_mem_encodeChar h, exists_eq_right']

theorem ne_of_mem_encodeChar {c d : Char} (h : c.toNat < 0x80) (hcd : c ≠ d) :
    ∀ b ∈ String.utf8EncodeChar d, (b != c.toUInt8) = true := by
  intro b hb
  rw [bne_iff_ne]
  rintro rfl
  exact hcd ((toUInt8_mem_encodeChar h).1 hb)

theorem dropWhile_encode {c : Char} (h : c.toNat < 0x80) (cs : List Char) :
    (encode cs).dropWhile (· != c.toUInt8) = encode (cs.dropWhile (· != c)) := by
  induction cs with
  | nil => rfl
  | cons d cs ih =>
    rw [encode_cons]
    by_cases hd : c = d
    · subst hd
      rw [List.dropWhile_cons_of_neg (by simp), encode_cons, encodeChar_ascii h]
      exact List.dropWhile_cons_of_neg (by change ¬ (c.toUInt8 != c.toUInt8) = true; simp)
    · rw [List.dropWhile_append_of_pos (ne_of_mem_encodeChar h hd), ih,
        List.dropWhile_cons_of_pos (by simpa using Ne.symm hd)]

/-! ## Order -/

theorem ofNat_inj {a b : Nat} (ha : a < UInt8.size) (hb : b < UInt8.size) :
    UInt8.ofNat a = UInt8.ofNat b ↔ a = b := by
  rw [← UInt8.toNat_inj, UInt8.toNat_ofNat_of_lt' ha, UInt8.toNat_ofNat_of_lt' hb]

/-- The greater number is greater without its last digit to the base 64, or else
    in that digit. -/
theorem digit_lt {n m : Nat} (h : n < m) :
    n / 64 < m / 64 ∨ n / 64 = m / 64 ∧ n % 64 < m % 64 := by
  omega

theorem encodeChar_append_lt {c d : Char} (h : c < d) (bs bs' : Bytes) :
    String.utf8EncodeChar c ++ bs < String.utf8EncodeChar d ++ bs' := by
  have hv : d.val.toNat < 0xD800 ∨ 0xDFFF < d.val.toNat ∧ d.val.toNat < 0x110000 := toNat_valid d
  have hcd : c.val.toNat < d.val.toNat := h
  unfold String.utf8EncodeChar
  generalize c.val.toNat = n at *
  generalize d.val.toNat = m at *
  -- The first digits that differ decide, of which four bytes have four.
  have hlast := digit_lt hcd
  have hthird : n / 64 < m / 64 → _ := digit_lt
  have hsecond : n / 64 / 64 < m / 64 / 64 → _ := digit_lt
  simp only [Nat.div_div_eq_div_mul, Nat.reduceMul] at hthird hsecond
  have hn : n / 262144 % 8 = n / 262144 := Nat.mod_eq_of_lt (by omega)
  have hm : m / 262144 % 8 = m / 262144 := Nat.mod_eq_of_lt (by omega)
  dsimp only
  rw [hn, hm]
  split_ifs
  all_goals
    simp (disch := (unfold UInt8.size; omega)) only [List.cons_append, List.cons_lt_cons_iff,
      UInt8.ofNat_lt_iff_lt, ofNat_inj]
    omega

/-- **Bytes are in the order of the characters.** -/
theorem encode_lt_encode {cs ds : List Char} (h : cs < ds) : encode cs < encode ds := by
  induction h with
  | @nil d ds =>
    rw [encode_cons]
    rcases hd : String.utf8EncodeChar d with _ | ⟨b, bs⟩
    · exact absurd hd String.utf8EncodeChar_ne_nil
    · exact List.Lex.nil
  | @cons c cs ds _ ih =>
    rw [encode_cons, encode_cons]
    exact List.append_left_lt ih
  | @rel c cs d ds hcd =>
    rw [encode_cons, encode_cons]
    exact encodeChar_append_lt hcd _ _

end Utf8

/-! ## Texts -/

theorem utf8_lt_utf8 {s t : String} (h : s < t) : utf8 s < utf8 t :=
  Utf8.encode_lt_encode h

@[simp] theorem utf8_append (s t : String) : utf8 (s ++ t) = utf8 s ++ utf8 t := by
  rw [utf8, String.toList_append, Utf8.encode_append]
  rfl

theorem utf8_ofList (cs : List Char) : utf8 (String.ofList cs) = Utf8.encode cs := by
  rw [utf8, String.toList_ofList]

/-- **The lossy reading of written text is that text.** -/
@[simp] theorem lossyText_utf8 (s : String) : lossyText (utf8 s) = s := by
  rw [lossyText, utf8, Utf8.decodeLossy_encode, String.ofList_toList]

theorem toUInt8_mem_utf8 {c : Char} (h : c.toNat < 0x80) {s : String} :
    c.toUInt8 ∈ utf8 s ↔ c ∈ s.toList :=
  Utf8.toUInt8_mem_encode h

end MissionText
