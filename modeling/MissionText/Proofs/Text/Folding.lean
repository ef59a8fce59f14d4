/-
  Comparing texts up to case.

  * `sameFolded` is an equivalence, since it compares the lower-case forms.
  * `sameFolded_eq_sameAscii`: against an ASCII text without a `k` it ignores
    the case of `A` to `Z` and nothing else.  The only other character whose
    lower-case form is ASCII is the Kelvin sign, which becomes a `k`.
  * `sameFolded_of_sameAscii`: texts that differ in the case of `A` to `Z` only are
    the same up to case.
-/
import Mathlib.Tactic.Common
import MissionText.Text.LowerCase

namespace MissionText

/-! ## An equivalence -/

theorem sameFolded_iff {a b : String} : sameFolded a b = true ↔ lowerCased a = lowerCased b :=
  beq_iff_eq

@[simp] theorem sameFolded_refl (a : String) : sameFolded a a = true := sameFolded_iff.2 rfl

theorem sameFolded_comm (a b : String) : sameFolded a b = sameFolded b a := by
  rw [Bool.eq_iff_iff, sameFolded_iff, sameFolded_iff]
  exact eq_comm

theorem sameFolded_left {a b : String} (h : sameFolded a b = true) (c : String) :
    sameFolded a c = sameFolded b c := by
  rw [Bool.eq_iff_iff, sameFolded_iff, sameFolded_iff, sameFolded_iff.1 h]

theorem sameFolded_right {a b : String} (h : sameFolded a b = true) (c : String) :
    sameFolded c a = sameFolded c b := by
  rw [sameFolded_comm c a, sameFolded_left h, sameFolded_comm]

theorem sameFolded_trans {a b c : String} (h : sameFolded a b = true)
    (h' : sameFolded b c = true) : sameFolded a c = true := by
  rw [sameFolded_left h, h']

/-! ## Against ASCII texts -/

/-- A row of the table ends below U+0080, is the one of the Kelvin sign, or has
    images that are characters above it. -/
theorem caseRanges_image {r : CaseRange} (h : r ∈ caseRanges) :
    r.last < 0x80 ∨ (r.first = r.last ∧ r.image = 0x6B) ∨
      (0x80 ≤ r.image ∧ r.image + (r.last - r.first) < 0xD800) ∨
      (0xDFFF < r.image ∧ r.image + (r.last - r.first) < 0x110000) := by
  revert r
  decide +kernel

/-- A character has an ASCII lower-case form other than `k` only as an ASCII
    letter or as that form itself. -/
theorem toLower_eq_simpleLowerCase {c : Char} (h : (simpleLowerCase c).toNat < 0x80)
    (hk : simpleLowerCase c ≠ 'k') : c.toLower = simpleLowerCase c := by
  unfold simpleLowerCase at h hk ⊢
  split_ifs at h hk ⊢ with hc
  · rfl
  · split at h
    · next r hr =>
      exfalso
      have hmem : r ∈ caseRanges := List.mem_of_find?_eq_some hr
      have hhas : r.has c.toNat = true := by simpa using List.find?_some hr
      simp only [CaseRange.has, Bool.and_eq_true, decide_eq_true_eq] at hhas
      obtain ⟨⟨h₁, h₂⟩, -⟩ := hhas
      simp only [hr, CaseRange.apply] at h hk
      have hvalid : ∀ n : Nat, (n < 0xD800 ∨ (0xDFFF < n ∧ n < 0x110000)) →
          (Char.ofNat n).toNat = n := by
        intro n hn
        have hn : n.isValidChar := hn
        rw [Char.ofNat, dif_pos hn]
        rfl
      rcases caseRanges_image hmem with hlast | ⟨hone, himage⟩ | ⟨himage, hmax⟩ | ⟨himage, hmax⟩
      · omega
      · have hn : r.image + (c.toNat - r.first) = 0x6B := by omega
        rw [hn] at hk
        exact hk (by decide)
      · rw [hvalid _ (by omega)] at h
        omega
      · rw [hvalid _ (by omega)] at h
        omega
    · exact absurd h hc

namespace Text

/-- A text whose lower-case form is ASCII without a `k` differs from it in the
    case of ASCII letters only. -/
theorem map_toLower_of_lowerCaseAfter {cs before ds : List Char}
    (h : lowerCaseAfter before cs = ds) (hd : ∀ d ∈ ds, d.toNat < 0x80 ∧ d ≠ 'k') :
    cs.map Char.toLower = ds := by
  induction cs generalizing before ds with
  | nil => exact h
  | cons c cs ih =>
    rw [lowerCaseAfter] at h
    have hchar : ∀ d ∈ lowerCaseChar before c cs, d.toNat < 0x80 ∧ d ≠ 'k' := fun d hm =>
      hd d (h ▸ List.mem_append_left _ hm)
    have hone : lowerCaseChar before c cs = [c.toLower] := by
      unfold lowerCaseChar at hchar ⊢
      split_ifs at hchar ⊢
      · exact absurd (hchar 'ς' (by simp)).1 (by decide)
      · exact absurd (hchar 'σ' (by simp)).1 (by decide)
      · exact absurd (hchar '\u0307' (by simp)).1 (by decide)
      · obtain ⟨hlt, hk⟩ := hchar (simpleLowerCase c) (by simp)
        rw [toLower_eq_simpleLowerCase hlt hk]
    subst h
    rw [List.map_cons, hone, ih rfl fun d hm => hd d (List.mem_append_right _ hm)]
    rfl

theorem lowerCaseAfter_ascii {cs : List Char} (h : ∀ c ∈ cs, c.toNat < 0x80)
    (before : List Char) : lowerCaseAfter before cs = cs.map Char.toLower := by
  induction cs generalizing before with
  | nil => rfl
  | cons c cs ih =>
    have hc : c.toNat < 0x80 := h c List.mem_cons_self
    have hsigma : ¬ (c == 'Σ') = true := by
      rw [beq_iff_eq]
      rintro rfl
      exact absurd hc (by decide)
    have hdotted : ¬ (c == 'İ') = true := by
      rw [beq_iff_eq]
      rintro rfl
      exact absurd hc (by decide)
    rw [lowerCaseAfter, ih fun d hd => h d (List.mem_cons_of_mem _ hd), lowerCaseChar,
      if_neg hsigma, if_neg hdotted, simpleLowerCase, if_pos hc]
    rfl

end Text

theorem toNat_toLower_lt {c : Char} (h : c.toNat < 0x80) : c.toLower.toNat < 0x80 := by
  have hall : ∀ n < 0x80, (Char.ofNat n).toLower.toNat < 0x80 := by decide
  have := hall c.toNat h
  rwa [Char.ofNat_toNat] at this

theorem toLower_of_not_ascii {c : Char} (h : ¬ c.toNat < 0x80) : c.toLower = c := by
  unfold Char.toLower
  rw [dif_neg]
  rintro ⟨-, hz⟩
  exact h (Nat.lt_of_le_of_lt hz (by decide))

/-- **Against an ASCII text without a `k`** only the case of `A` to `Z` is
    ignored. -/
theorem sameFolded_eq_sameAscii {t : String}
    (h : (t.toList.all fun c => c.toNat < 0x80 && c.toLower != 'k') = true) (s : String) :
    sameFolded s t = sameAscii s t := by
  simp only [List.all_eq_true, Bool.and_eq_true, decide_eq_true_eq, bne_iff_ne] at h
  have ht : lowerCased t = String.ofList (t.toList.map Char.toLower) :=
    congrArg String.ofList (Text.lowerCaseAfter_ascii (fun c hc => (h c hc).1) [])
  rw [Bool.eq_iff_iff, sameFolded_iff, ht, sameAscii, beq_iff_eq, lowerCased, String.ofList_inj]
  constructor
  · intro hs
    refine Text.map_toLower_of_lowerCaseAfter hs fun d hd => ?_
    obtain ⟨c, hc, rfl⟩ := List.mem_map.1 hd
    exact ⟨toNat_toLower_lt (h c hc).1, (h c hc).2⟩
  · intro hs
    have hascii : ∀ c ∈ s.toList, c.toNat < 0x80 := by
      intro c hc
      obtain ⟨d, hd, hdc⟩ := List.mem_map.1 (hs ▸ List.mem_map_of_mem hc)
      by_contra hlt
      rw [toLower_of_not_ascii hlt] at hdc
      exact hlt (hdc ▸ toNat_toLower_lt (h d hd).1)
    rw [Text.lowerCase, Text.lowerCaseAfter_ascii hascii, hs]

/-! ## The case of ASCII letters -/

theorem sameAscii_iff {a b : String} :
    sameAscii a b = true ↔ a.toList.map Char.toLower = b.toList.map Char.toLower :=
  beq_iff_eq

@[simp] theorem sameAscii_refl (a : String) : sameAscii a a = true := sameAscii_iff.2 rfl

theorem sameAscii_comm (a b : String) : sameAscii a b = sameAscii b a := by
  rw [Bool.eq_iff_iff, sameAscii_iff, sameAscii_iff]
  exact eq_comm

theorem sameAscii_left {a b : String} (h : sameAscii a b = true) (c : String) :
    sameAscii a c = sameAscii b c := by
  rw [Bool.eq_iff_iff, sameAscii_iff, sameAscii_iff, sameAscii_iff.1 h]

/-- A letter from `A` to `Z` or from `a` to `z`. -/
def IsAsciiLetter (c : Char) : Prop :=
  (0x41 ≤ c.toNat ∧ c.toNat ≤ 0x5A) ∨ (0x61 ≤ c.toNat ∧ c.toNat ≤ 0x7A)

instance (c : Char) : Decidable (IsAsciiLetter c) :=
  inferInstanceAs (Decidable
    ((0x41 ≤ c.toNat ∧ c.toNat ≤ 0x5A) ∨ (0x61 ≤ c.toNat ∧ c.toNat ≤ 0x7A)))

theorem isCased_of_isAsciiLetter {c : Char} (h : IsAsciiLetter c) : isCased c = true := by
  have hcapital : (0x41, 0x5A) ∈ casedRanges := by decide +kernel
  have hsmall : (0x61, 0x7A) ∈ casedRanges := by decide +kernel
  rcases h with ⟨h₁, h₂⟩ | ⟨h₁, h₂⟩
  · exact List.any_eq_true.2 ⟨_, hcapital, by simp [h₁, h₂]⟩
  · exact List.any_eq_true.2 ⟨_, hsmall, by simp [h₁, h₂]⟩

theorem isCaseIgnorable_of_isAsciiLetter {c : Char} (h : IsAsciiLetter c) :
    isCaseIgnorable c = false := by
  have hranges : ∀ r ∈ caseIgnorableRanges,
      (r.2 < 0x41 ∨ 0x5A < r.1) ∧ (r.2 < 0x61 ∨ 0x7A < r.1) := by
    decide +kernel
  refine List.any_eq_false.2 fun r hr => ?_
  obtain ⟨hcapital, hsmall⟩ := hranges r hr
  simp only [Bool.and_eq_true, decide_eq_true_eq]
  unfold IsAsciiLetter at h
  omega

/-- Lower-casing an ASCII character leaves it, or makes a letter of a letter. -/
theorem toLower_cases (c : Char) :
    c.toLower.toLower = c.toLower ∧
      (c.toLower = c ∨ (IsAsciiLetter c ∧ IsAsciiLetter c.toLower)) := by
  by_cases h : c.toNat < 0x80
  · have hall : ∀ n < 0x80, (Char.ofNat n).toLower.toLower = (Char.ofNat n).toLower ∧
        ((Char.ofNat n).toLower = Char.ofNat n ∨
          (IsAsciiLetter (Char.ofNat n) ∧ IsAsciiLetter (Char.ofNat n).toLower)) := by
      decide +kernel
    have := hall c.toNat h
    rwa [Char.ofNat_toNat] at this
  · have hkept := toLower_of_not_ascii h
    exact ⟨by rw [hkept, hkept], .inl hkept⟩

theorem isCased_toLower (c : Char) : isCased c.toLower = isCased c := by
  rcases (toLower_cases c).2 with h | ⟨hc, hlower⟩
  · rw [h]
  · rw [isCased_of_isAsciiLetter hc, isCased_of_isAsciiLetter hlower]

theorem isCaseIgnorable_toLower (c : Char) : isCaseIgnorable c.toLower = isCaseIgnorable c := by
  rcases (toLower_cases c).2 with h | ⟨hc, hlower⟩
  · rw [h]
  · rw [isCaseIgnorable_of_isAsciiLetter hc, isCaseIgnorable_of_isAsciiLetter hlower]

theorem simpleLowerCase_toLower (c : Char) : simpleLowerCase c.toLower = simpleLowerCase c := by
  by_cases h : c.toNat < 0x80
  · rw [simpleLowerCase, simpleLowerCase, if_pos (toNat_toLower_lt h), if_pos h,
      (toLower_cases c).1]
  · rw [toLower_of_not_ascii h]

theorem toLower_beq {d : Char} (hd : ¬ d.toNat < 0x80) (c : Char) :
    (c.toLower == d) = (c == d) := by
  by_cases h : c.toNat < 0x80
  · have hne : c ≠ d := fun heq => hd (heq ▸ h)
    have hne' : c.toLower ≠ d := fun heq => hd (heq ▸ toNat_toLower_lt h)
    rw [beq_false_of_ne hne, beq_false_of_ne hne']
  · rw [toLower_of_not_ascii h]

namespace Text

theorem startsCased_map_toLower (cs : List Char) :
    startsCased (cs.map Char.toLower) = startsCased cs := by
  have hfind : (cs.map Char.toLower).find? (fun c => !isCaseIgnorable c) =
      (cs.find? fun c => !isCaseIgnorable c).map Char.toLower := by
    rw [List.find?_map]
    simp only [Function.comp_def, isCaseIgnorable_toLower]
  rw [startsCased, startsCased, hfind]
  rcases cs.find? (fun c => !isCaseIgnorable c) with _ | c
  · rfl
  · exact isCased_toLower c

theorem lowerCaseChar_toLower (before : List Char) (c : Char) (after : List Char) :
    lowerCaseChar (before.map Char.toLower) c.toLower (after.map Char.toLower) =
      lowerCaseChar before c after := by
  have hsigma := toLower_beq (d := 'Σ') (by decide) c
  have hdotted := toLower_beq (d := 'İ') (by decide) c
  rw [lowerCaseChar, lowerCaseChar, hsigma, hdotted, startsCased_map_toLower,
    startsCased_map_toLower, simpleLowerCase_toLower]

theorem lowerCaseAfter_map_toLower (before cs : List Char) :
    lowerCaseAfter (before.map Char.toLower) (cs.map Char.toLower) = lowerCaseAfter before cs := by
  induction cs generalizing before with
  | nil => rfl
  | cons c cs ih =>
    rw [List.map_cons, lowerCaseAfter, lowerCaseAfter, lowerCaseChar_toLower, ← List.map_cons, ih]

end Text

/-- **Texts that differ in the case of ASCII letters only** are the same up to
    case. -/
theorem sameFolded_of_sameAscii {a b : String} (h : sameAscii a b = true) :
    sameFolded a b = true := by
  have hlower (s : String) :
      Text.lowerCase s.toList = Text.lowerCase (s.toList.map Char.toLower) :=
    (Text.lowerCaseAfter_map_toLower [] s.toList).symm
  rw [sameFolded_iff, lowerCased, lowerCased, hlower a, sameAscii_iff.1 h, ← hlower b]

end MissionText
