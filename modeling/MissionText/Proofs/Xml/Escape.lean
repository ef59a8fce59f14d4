/-
  Escaped text is read back, and holds no markup.

  * `decodeText_escapeText`, `decodeText_escapeAttribute`: what stands between
    tags or quotes after escaping decodes to the text that was escaped, for
    every text.
  * `lt_notMem_escapeText`, `quote_notMem_escapeAttribute`: no `<` and no quote
    is left that could end the text early.
-/
import MissionText.Proofs.Text.Utf8
import MissionText.Xml.Escape

namespace MissionText.Xml

/-! ## Unescaping -/

theorem unescapeFrom_escapeAttributeChar (c : Char) (offset : Nat) (cs : List Char) :
    ∃ next, unescapeFrom offset none (escapeAttributeChar c ++ cs) =
      (unescapeFrom next none cs).map (c :: ·) := by
  unfold escapeAttributeChar escapeTextChar
  split_ifs with h₁ h₂ h₃ h₄ h₅
  · subst h₁
    exact ⟨_, rfl⟩
  · subst h₂
    exact ⟨_, rfl⟩
  · subst h₃
    exact ⟨_, rfl⟩
  · subst h₄
    exact ⟨_, rfl⟩
  · subst h₅
    exact ⟨_, rfl⟩
  · exact ⟨_, by rw [List.singleton_append, unescapeFrom, if_neg h₅]⟩

theorem unescapeFrom_escapeTextChar (c : Char) (offset : Nat) (cs : List Char) :
    ∃ next, unescapeFrom offset none (escapeTextChar c ++ cs) =
      (unescapeFrom next none cs).map (c :: ·) := by
  unfold escapeTextChar
  split_ifs with h₁ h₂ h₃
  · subst h₁
    exact ⟨_, rfl⟩
  · subst h₂
    exact ⟨_, rfl⟩
  · subst h₃
    exact ⟨_, rfl⟩
  · exact ⟨_, by rw [List.singleton_append, unescapeFrom, if_neg h₃]⟩

/-- A text is read back if each of its characters is. -/
theorem unescapeFrom_flatMap {f : Char → List Char}
    (hf : ∀ c offset cs, ∃ next, unescapeFrom offset none (f c ++ cs) =
      (unescapeFrom next none cs).map (c :: ·)) (cs : List Char) (offset : Nat) :
    unescapeFrom offset none (cs.flatMap f) = .ok cs := by
  induction cs generalizing offset with
  | nil => rfl
  | cons c cs ih =>
    obtain ⟨next, h⟩ := hf c offset (cs.flatMap f)
    rw [List.flatMap_cons, h, ih next]
    rfl

theorem decodeText_encode_flatMap {f : Char → List Char}
    (hf : ∀ c offset cs, ∃ next, unescapeFrom offset none (f c ++ cs) =
      (unescapeFrom next none cs).map (c :: ·)) (s : String) :
    decodeText (utf8 (String.ofList (s.toList.flatMap f))) = .ok s := by
  rw [utf8_ofList, decodeText, Utf8.decode_encode]
  simp only [Except.mapError, unescape, unescapeFrom_flatMap hf, bind, Except.bind, pure,
    Except.pure, String.ofList_toList]

/-- **Escaped text is read back.** -/
theorem decodeText_escapeText (s : String) : decodeText (utf8 (escapeText s)) = .ok s :=
  decodeText_encode_flatMap unescapeFrom_escapeTextChar s

/-- **An escaped attribute value is read back.** -/
theorem decodeText_escapeAttribute (s : String) : decodeText (utf8 (escapeAttribute s)) = .ok s :=
  decodeText_encode_flatMap unescapeFrom_escapeAttributeChar s

/-! ## No markup -/

theorem lt_notMem_escapeText (s : String) : '<'.toUInt8 ∉ utf8 (escapeText s) := by
  rw [toUInt8_mem_utf8 (by decide), escapeText, String.toList_ofList, List.mem_flatMap]
  rintro ⟨c, -, hc⟩
  unfold escapeTextChar at hc
  split_ifs at hc with h₁ h₂ h₃
  · revert hc; decide
  · revert hc; decide
  · revert hc; decide
  · exact h₁ (List.mem_singleton.1 hc).symm

theorem quote_notMem_escapeAttribute (s : String) : '"'.toUInt8 ∉ utf8 (escapeAttribute s) := by
  rw [toUInt8_mem_utf8 (by decide), escapeAttribute, String.toList_ofList, List.mem_flatMap]
  rintro ⟨c, -, hc⟩
  unfold escapeAttributeChar escapeTextChar at hc
  split_ifs at hc with h₁ h₂ h₃ h₄ h₅
  · revert hc; decide
  · revert hc; decide
  · revert hc; decide
  · revert hc; decide
  · revert hc; decide
  · exact h₂ (List.mem_singleton.1 hc).symm

theorem escapeText_append (s t : String) : escapeText (s ++ t) = escapeText s ++ escapeText t := by
  rw [escapeText, String.toList_append, List.flatMap_append, String.ofList_append]
  rfl

theorem escapeText_empty : escapeText "" = "" := rfl

theorem utf8_escapeText_ne_nil {s : String} (h : s ≠ "") : utf8 (escapeText s) ≠ [] := by
  intro he
  have hs := decodeText_escapeText s
  rw [he] at hs
  exact h (Except.ok.inj hs).symm

end MissionText.Xml
