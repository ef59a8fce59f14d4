/-
  How directives are written.

  Each reader of the scanner is matched with the texts that it accepts:

  * `Header.WrittenAs`: the mark `TR` and three tokens with white space between
    them (`Header.read?_eq_some_iff`).
  * `HasShortForm`, `HasOpener`: a line has a directive of the short form, or the
    opener of a block, somewhere (`firstSuffix?_shortForm?_eq_none_iff`,
    `opensBlock_iff`).
  * `closesBlock_iff`: a line closes a block if it has the end of a comment.
-/
import Mathlib.Data.List.Infix
import Mathlib.Data.List.TakeWhile
import Mathlib.Tactic.Common
import MissionText.Script.Directive

namespace MissionText

/-! ## Matches along a text -/

section Suffix

variable {α : Type} {f : List Char → Option α}

theorem firstSuffix?_of_some {cs : List Char} {a : α} (h : f cs = some a) :
    firstSuffix? f cs = some a := by
  cases cs with
  | nil => exact h
  | cons c cs => simp only [firstSuffix?, h]

theorem firstSuffix?_cons_of_none {c : Char} {cs : List Char} (h : f (c :: cs) = none) :
    firstSuffix? f (c :: cs) = firstSuffix? f cs := by
  simp only [firstSuffix?, h]

theorem firstSuffix?_eq_none_iff {cs : List Char} :
    firstSuffix? f cs = none ↔ ∀ s, s <:+ cs → f s = none := by
  induction cs with
  | nil => simp [firstSuffix?]
  | cons c cs ih =>
    rcases hf : f (c :: cs) with _ | a
    · simp [firstSuffix?_cons_of_none hf, ih, List.suffix_cons_iff, hf]
    · simp [firstSuffix?_of_some hf, List.suffix_cons_iff, hf]

/-- A text in front is passed over if nothing matches from inside it. -/
theorem firstSuffix?_append {xs cs : List Char} (h : ∀ s, s ≠ [] → s <:+ xs → f (s ++ cs) = none) :
    firstSuffix? f (xs ++ cs) = firstSuffix? f cs := by
  induction xs with
  | nil => rfl
  | cons x xs ih =>
    have hx : f (x :: (xs ++ cs)) = none := h (x :: xs) (List.cons_ne_nil x xs) List.suffix_rfl
    rw [List.cons_append, firstSuffix?_cons_of_none hx]
    exact ih fun s hne hs => h s hne (hs.trans (List.suffix_cons x xs))

/-- There is a match in a text if a part of it is one. -/
theorem isSome_firstSuffix?_iff {p : List Char → Prop}
    (hf : ∀ cs, (f cs).isSome = true ↔ ∃ u, p u ∧ u <+: cs) (cs : List Char) :
    (firstSuffix? f cs).isSome = true ↔ ∃ u, p u ∧ u <:+: cs := by
  rw [← Option.ne_none_iff_isSome, ne_eq, firstSuffix?_eq_none_iff]
  push Not
  constructor
  · rintro ⟨s, hs, hsome⟩
    obtain ⟨u, hu, hpre⟩ := (hf s).1 (Option.ne_none_iff_isSome.1 hsome)
    exact ⟨u, hu, hpre.isInfix.trans hs.isInfix⟩
  · rintro ⟨u, hu, xs, ys, rfl⟩
    refine ⟨u ++ ys, ⟨xs, by simp⟩, Option.ne_none_iff_isSome.2 ((hf _).2 ⟨u, hu, ?_⟩)⟩
    exact List.prefix_append u ys

end Suffix

/-! ## Words -/

/-- White space. -/
def IsBlank (cs : List Char) : Prop := ∀ c ∈ cs, isSpace c = true

/-- White space between two words. -/
def IsGap (cs : List Char) : Prop := cs ≠ [] ∧ IsBlank cs

/-- A token: characters that may stand in one, at least one of them. -/
def IsToken (cs : List Char) : Prop := cs ≠ [] ∧ ∀ c ∈ cs, isTokenChar c = true

instance (cs : List Char) : Decidable (IsBlank cs) :=
  List.decidableBAll (fun c => isSpace c = true) cs

instance (cs : List Char) : Decidable (IsGap cs) :=
  inferInstanceAs (Decidable (cs ≠ [] ∧ IsBlank cs))

instance (cs : List Char) : Decidable (IsToken cs) :=
  have : Decidable (∀ c ∈ cs, isTokenChar c = true) :=
    List.decidableBAll (fun c => isTokenChar c = true) cs
  inferInstanceAs (Decidable (cs ≠ [] ∧ ∀ c ∈ cs, isTokenChar c = true))

theorem isBlank_singleton {c : Char} (h : isSpace c = true) : IsBlank [c] := by
  intro d hd
  rw [List.mem_singleton.1 hd, h]

/-- White space does not stand in tokens. -/
theorem isTokenChar_eq_false {c : Char} (h : isSpace c = true) : isTokenChar c = false := by
  by_contra htoken
  change ¬ ((((decide (c.val ≥ 65 ∧ c.val ≤ 90) ||
    (decide (c.val ≥ 97) && decide (c.val ≤ 122))) ||
    (decide (c.val ≥ 48) && decide (c.val ≤ 57))) || c == '_') || c == '*') = false at htoken
  simp only [Bool.not_eq_false, Bool.or_eq_true, beq_iff_eq, Bool.and_eq_true, decide_eq_true_eq,
    UInt32.le_iff_toNat_le, ge_iff_le] at htoken
  change ((((65 ≤ c.toNat ∧ c.toNat ≤ 90) ∨ (97 ≤ c.toNat ∧ c.toNat ≤ 122)) ∨
    (48 ≤ c.toNat ∧ c.toNat ≤ 57)) ∨ c = '_') ∨ c = '*' at htoken
  rcases htoken with (hn | rfl) | rfl
  · simp only [isSpace, Bool.or_eq_true, Bool.and_eq_true, decide_eq_true_eq, beq_iff_eq] at h
    omega
  · exact absurd h (by decide)
  · exact absurd h (by decide)

/-- The text does not start with a character of a class. -/
def StartsOutside (p : Char → Bool) (cs : List Char) : Prop := ∀ c ∈ cs.head?, p c = false

theorem startsOutside_cons {p : Char → Bool} {c : Char} {cs : List Char} :
    StartsOutside p (c :: cs) ↔ p c = false := by
  simp [StartsOutside]

theorem startsOutside_dropWhile (p : Char → Bool) (cs : List Char) :
    StartsOutside p (cs.dropWhile p) := by
  intro c hc
  rw [Option.mem_def, List.head?_eq_some_iff] at hc
  obtain ⟨rest, hrest⟩ := hc
  have hne : cs.dropWhile p ≠ [] := by simp [hrest]
  have hhead := List.head_dropWhile_not p hne
  simpa [hrest] using hhead

theorem StartsOutside.dropWhile {p : Char → Bool} {cs : List Char} (h : StartsOutside p cs) :
    cs.dropWhile p = cs := by
  cases cs with
  | nil => rfl
  | cons c cs => rw [List.dropWhile_cons_of_neg (by simp [startsOutside_cons.1 h])]

theorem StartsOutside.takeWhile {p : Char → Bool} {cs : List Char} (h : StartsOutside p cs) :
    cs.takeWhile p = [] := by
  cases cs with
  | nil => rfl
  | cons c cs => rw [List.takeWhile_cons_of_neg (by simp [startsOutside_cons.1 h])]

/-- A gap starts with no character of a token, whatever follows it. -/
theorem IsGap.startsOutside {gap : List Char} (h : IsGap gap) (cs : List Char) :
    StartsOutside isTokenChar (gap ++ cs) := by
  obtain ⟨c, gap, rfl⟩ := List.exists_cons_of_ne_nil h.1
  exact startsOutside_cons.2 (isTokenChar_eq_false (h.2 c List.mem_cons_self))

theorem IsToken.startsOutside {token : List Char} (h : IsToken token) (cs : List Char) :
    StartsOutside isSpace (token ++ cs) := by
  obtain ⟨c, token, rfl⟩ := List.exists_cons_of_ne_nil h.1
  refine startsOutside_cons.2 ?_
  by_contra hspace
  have hc := isTokenChar_eq_false (by simpa using hspace)
  rw [h.2 c List.mem_cons_self] at hc
  cases hc

/-! ## Readers of words -/

theorem skipSpaces?_eq_some_iff {cs rest : List Char} :
    skipSpaces? cs = some rest ↔
      ∃ gap, IsGap gap ∧ StartsOutside isSpace rest ∧ cs = gap ++ rest := by
  constructor
  · intro h
    cases cs with
    | nil => cases h
    | cons c cs =>
      simp only [skipSpaces?] at h
      split_ifs at h with hc
      obtain rfl := Option.some.inj h
      refine ⟨(c :: cs).takeWhile isSpace, ⟨?_, fun d hd => List.mem_takeWhile_imp hd⟩,
        startsOutside_dropWhile _ _, List.takeWhile_append_dropWhile.symm⟩
      rw [List.takeWhile_cons_of_pos hc]
      exact List.cons_ne_nil _ _
  · rintro ⟨gap, hgap, hrest, rfl⟩
    have hdrop : (gap ++ rest).dropWhile isSpace = rest := by
      rw [List.dropWhile_append_of_pos hgap.2, hrest.dropWhile]
    obtain ⟨c, gap, rfl⟩ := List.exists_cons_of_ne_nil hgap.1
    simp only [List.cons_append, skipSpaces?, hgap.2 c List.mem_cons_self, if_true] at hdrop ⊢
    rw [hdrop]

/-- **A token is read** after a gap, as long as it goes. -/
theorem spacedToken?_eq_some_iff {cs token rest : List Char} :
    spacedToken? cs = some (token, rest) ↔
      ∃ gap, IsGap gap ∧ IsToken token ∧ StartsOutside isTokenChar rest ∧
        cs = gap ++ (token ++ rest) := by
  unfold spacedToken?
  rw [Option.bind_eq_bind, Option.bind_eq_some_iff]
  constructor
  · rintro ⟨cs', hskip, h⟩
    obtain ⟨gap, hgap, -, rfl⟩ := skipSpaces?_eq_some_iff.1 hskip
    dsimp only at h
    split_ifs at h with hempty
    obtain ⟨rfl, rfl⟩ := Prod.mk.inj (Option.some.inj h)
    refine ⟨gap, hgap, ⟨by simpa using hempty, fun c hc => List.mem_takeWhile_imp hc⟩,
      startsOutside_dropWhile _ _, ?_⟩
    rw [List.takeWhile_append_dropWhile]
  · rintro ⟨gap, hgap, htoken, hrest, rfl⟩
    refine ⟨token ++ rest,
      skipSpaces?_eq_some_iff.2 ⟨gap, hgap, htoken.startsOutside rest, rfl⟩, ?_⟩
    have htake : (token ++ rest).takeWhile isTokenChar = token := by
      rw [List.takeWhile_append_of_pos htoken.2, hrest.takeWhile, List.append_nil]
    have hdrop : (token ++ rest).dropWhile isTokenChar = rest := by
      rw [List.dropWhile_append_of_pos htoken.2, hrest.dropWhile]
    dsimp only
    rw [htake, hdrop, if_neg (by simpa using htoken.1)]

theorem skipMark?_eq_some_iff {cs rest : List Char} :
    skipMark? cs = some rest ↔ ∃ blank, IsBlank blank ∧ cs = blank ++ 'T' :: 'R' :: rest := by
  unfold skipMark?
  constructor
  · intro h
    split at h
    · next hdrop =>
      obtain rfl := Option.some.inj h
      refine ⟨cs.takeWhile isSpace, fun c hc => List.mem_takeWhile_imp hc, ?_⟩
      rw [← hdrop, List.takeWhile_append_dropWhile]
    · cases h
  · rintro ⟨blank, hblank, rfl⟩
    rw [List.dropWhile_append_of_pos hblank, List.dropWhile_cons_of_neg (by decide)]
    rfl

/-! ## Headers -/

/-- A header is written as the mark and its tokens, with white space between
    them. -/
structure Header.WrittenAs (h : Header) (cs : List Char) : Prop where
  package : IsToken h.package
  container : IsToken h.container
  key : IsToken h.key
  spelling : ∃ blank gap gap' gap'', IsBlank blank ∧ IsGap gap ∧ IsGap gap' ∧ IsGap gap'' ∧
    cs = blank ++ 'T' :: 'R' ::
      (gap ++ (h.package ++ (gap' ++ (h.container ++ (gap'' ++ h.key)))))

/-- **A header is read** where it is written, with a key as long as it goes. -/
theorem Header.read?_eq_some_iff {cs rest : List Char} {h : Header} :
    Header.read? cs = some (h, rest) ↔
      ∃ spelling, h.WrittenAs spelling ∧ StartsOutside isTokenChar rest ∧
        cs = spelling ++ rest := by
  unfold Header.read?
  simp only [Option.bind_eq_bind, Option.bind_eq_some_iff]
  constructor
  · rintro ⟨cs₁, hmark, ⟨package, cs₂⟩, hpackage, ⟨container, cs₃⟩, hcontainer, ⟨key, cs₄⟩, hkey,
      heq⟩
    obtain ⟨rfl, rfl⟩ := Prod.mk.inj (Option.some.inj heq)
    obtain ⟨blank, hblank, rfl⟩ := skipMark?_eq_some_iff.1 hmark
    obtain ⟨gap, hgap, hp, -, rfl⟩ := spacedToken?_eq_some_iff.1 hpackage
    obtain ⟨gap', hgap', hc, -, rfl⟩ := spacedToken?_eq_some_iff.1 hcontainer
    obtain ⟨gap'', hgap'', hk, hrest, rfl⟩ := spacedToken?_eq_some_iff.1 hkey
    exact ⟨_, ⟨hp, hc, hk, blank, gap, gap', gap'', hblank, hgap, hgap', hgap'', rfl⟩, hrest,
      by simp⟩
  · rintro ⟨_, ⟨hp, hc, hk, blank, gap, gap', gap'', hblank, hgap, hgap', hgap'', rfl⟩, hrest, rfl⟩
    refine ⟨_, skipMark?_eq_some_iff.2 ⟨blank, hblank, List.append_assoc _ _ _⟩,
      ⟨h.package, gap' ++ (h.container ++ (gap'' ++ (h.key ++ rest)))⟩, ?_,
      ⟨h.container, gap'' ++ (h.key ++ rest)⟩, ?_, ⟨h.key, rest⟩, ?_, rfl⟩
    · exact spacedToken?_eq_some_iff.2 ⟨gap, hgap, hp, hgap'.startsOutside _, by simp⟩
    · exact spacedToken?_eq_some_iff.2 ⟨gap', hgap', hc, hgap''.startsOutside _, rfl⟩
    · exact spacedToken?_eq_some_iff.2 ⟨gap'', hgap'', hk, hrest, rfl⟩

/-! ## The short form -/

theorem quotedText?_eq_some_iff {cs text : List Char} :
    quotedText? cs = some text ↔
      ∃ gap rest, IsGap gap ∧ '"' ∉ text ∧ cs = gap ++ '"' :: (text ++ '"' :: rest) := by
  unfold quotedText?
  rw [Option.bind_eq_bind, Option.bind_eq_some_iff]
  constructor
  · rintro ⟨cs', hskip, h⟩
    obtain ⟨gap, hgap, -, rfl⟩ := skipSpaces?_eq_some_iff.1 hskip
    split at h
    · next cs =>
      split_ifs at h with hquote
      obtain rfl := Option.some.inj h
      have hdrop : cs.dropWhile (· != '"') ≠ [] := by
        rw [ne_eq, List.dropWhile_eq_nil_iff]
        intro hall
        exact absurd (hall '"' (by simpa using hquote)) (by decide)
      obtain ⟨c, rest, hrest⟩ := List.exists_cons_of_ne_nil hdrop
      have hc := startsOutside_dropWhile (· != '"') cs
      rw [hrest, startsOutside_cons] at hc
      obtain rfl : c = '"' := by simpa using hc
      refine ⟨gap, rest, hgap, fun hmem => ?_, ?_⟩
      · exact absurd (List.mem_takeWhile_imp hmem) (by decide)
      · rw [← hrest, List.takeWhile_append_dropWhile]
    · cases h
  · rintro ⟨gap, rest, hgap, htext, rfl⟩
    refine ⟨_, skipSpaces?_eq_some_iff.2 ⟨gap, hgap, startsOutside_cons.2 (by decide), rfl⟩, ?_⟩
    have hall : ∀ c ∈ text, (c != '"') = true := fun c hc => by
      simpa using fun heq : c = '"' => htext (heq ▸ hc)
    simp [List.takeWhile_append_of_pos hall]

/-- **The short form is read** where it is written: two slashes, a header and a
    text between quotes. -/
theorem shortForm?_eq_some_iff {cs text : List Char} {h : Header} :
    shortForm? cs = some (h, text) ↔
      ∃ spelling gap rest, h.WrittenAs spelling ∧ IsGap gap ∧ '"' ∉ text ∧
        cs = '/' :: '/' :: (spelling ++ (gap ++ '"' :: (text ++ '"' :: rest))) := by
  unfold shortForm?
  constructor
  · intro hread
    split at hread
    · simp only [Option.bind_eq_bind, Option.bind_eq_some_iff] at hread
      obtain ⟨⟨h', cs'⟩, hheader, text', htext, heq⟩ := hread
      obtain ⟨rfl, rfl⟩ := Prod.mk.inj (Option.some.inj heq)
      obtain ⟨spelling, hspelling, -, rfl⟩ := Header.read?_eq_some_iff.1 hheader
      obtain ⟨gap, rest, hgap, hquote, rfl⟩ := quotedText?_eq_some_iff.1 htext
      exact ⟨spelling, gap, rest, hspelling, hgap, hquote, rfl⟩
    · cases hread
  · rintro ⟨spelling, gap, rest, hspelling, hgap, hquote, rfl⟩
    have hheader := Header.read?_eq_some_iff.2
      ⟨spelling, hspelling, hgap.startsOutside ('"' :: (text ++ '"' :: rest)), rfl⟩
    have htext := quotedText?_eq_some_iff.2 ⟨gap, rest, hgap, hquote, rfl⟩
    simp only [Option.bind_eq_bind, Option.bind_eq_some_iff]
    exact ⟨⟨h, _⟩, hheader, text, htext, rfl⟩

/-- A directive of the short form, from its slashes to its closing quote. -/
def IsShortForm (cs : List Char) : Prop :=
  ∃ (h : Header) (spelling gap text : List Char), h.WrittenAs spelling ∧ IsGap gap ∧ '"' ∉ text ∧
    cs = '/' :: '/' :: (spelling ++ (gap ++ '"' :: (text ++ ['"'])))

/-- The line has a directive of the short form. -/
def HasShortForm (line : List Char) : Prop := ∃ cs, IsShortForm cs ∧ cs <:+: line

theorem isSome_shortForm?_iff (cs : List Char) :
    (shortForm? cs).isSome = true ↔ ∃ u, IsShortForm u ∧ u <+: cs := by
  rw [Option.isSome_iff_exists]
  constructor
  · rintro ⟨⟨h, text⟩, hread⟩
    obtain ⟨spelling, gap, rest, hspelling, hgap, hquote, rfl⟩ := shortForm?_eq_some_iff.1 hread
    exact ⟨_, ⟨h, spelling, gap, text, hspelling, hgap, hquote, rfl⟩, rest, by simp⟩
  · rintro ⟨_, ⟨h, spelling, gap, text, hspelling, hgap, hquote, rfl⟩, rest, rfl⟩
    exact ⟨(h, text), shortForm?_eq_some_iff.2
      ⟨spelling, gap, rest, hspelling, hgap, hquote, by simp⟩⟩

/-- **A line declares nothing in the short form** if it has no directive of it. -/
theorem firstSuffix?_shortForm?_eq_none_iff {line : List Char} :
    firstSuffix? shortForm? line = none ↔ ¬ HasShortForm line := by
  rw [HasShortForm, ← isSome_firstSuffix?_iff isSome_shortForm?_iff, Bool.not_eq_true,
    Option.isSome_eq_false_iff, Option.isNone_iff_eq_none]

instance (line : List Char) : Decidable (HasShortForm line) :=
  decidable_of_iff _ (isSome_firstSuffix?_iff isSome_shortForm?_iff line)

/-! ## The long form -/

/-- The opener of a block. -/
def IsOpener (cs : List Char) : Prop :=
  ∃ blank, IsBlank blank ∧ cs = '/' :: '*' :: (blank ++ ['T', 'R'])

/-- The line has the opener of a block. -/
def HasOpener (line : List Char) : Prop := ∃ cs, IsOpener cs ∧ cs <:+: line

theorem isSome_blockOpener?_iff (cs : List Char) :
    (blockOpener? cs).isSome = true ↔ ∃ u, IsOpener u ∧ u <+: cs := by
  rw [Option.isSome_iff_exists]
  constructor
  · rintro ⟨rest, hread⟩
    unfold blockOpener? at hread
    split at hread
    · obtain ⟨blank, hblank, rfl⟩ := skipMark?_eq_some_iff.1 hread
      exact ⟨_, ⟨blank, hblank, rfl⟩, rest, by simp⟩
    · cases hread
  · rintro ⟨_, ⟨blank, hblank, rfl⟩, rest, rfl⟩
    exact ⟨rest, skipMark?_eq_some_iff.2 ⟨blank, hblank, by simp⟩⟩

/-- **A line opens a block** if it has an opener. -/
theorem opensBlock_iff {line : List Char} : opensBlock line = true ↔ HasOpener line :=
  isSome_firstSuffix?_iff isSome_blockOpener?_iff line

instance (line : List Char) : Decidable (HasOpener line) := decidable_of_iff _ opensBlock_iff

/-- The end of a comment. -/
def closer : List Char := ['*', '/']

theorem isSome_commentEnd?_iff (cs : List Char) :
    (commentEnd? cs).isSome = true ↔ ∃ u, u = closer ∧ u <+: cs := by
  simp only [Option.isSome_iff_exists, commentEnd?_eq_some_iff, exists_eq_left]
  exact exists_congr fun rest => eq_comm

/-- **A line closes a block** if it has the end of a comment. -/
theorem closesBlock_iff {line : List Char} : closesBlock line = true ↔ closer <:+: line := by
  rw [closesBlock, isSome_firstSuffix?_iff isSome_commentEnd?_iff]
  simp only [exists_eq_left]

end MissionText
