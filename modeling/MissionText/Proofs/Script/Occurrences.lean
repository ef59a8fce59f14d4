/-
  Where identifiers stand in a line, and in a script.

  * `IsIdentifier`: the letters `str_` and at least one more letter, digit or
    underscore, where case is ignored by simple case folding.
    `identifierAt?_eq_some_iff` matches it with the reader of one identifier.
  * `FindsAll`: identifiers with their places in a line, from the left, as long as
    they go, none over another, and none left out.
  * `findsAll_cons_iff` and `findsAll_identifier_iff` are the two steps of the scan:
    over a character at which no identifier starts, and over an identifier.
  * `identifiers_eq_iff_findsAll`: the identifiers of a line are found all and once.
  * `FindsUses` is the same for the lines of a script, counted from one: line by line,
    and from the left in each.  `findsUses_cons_iff` is the step to the next line, and
    `identifierUses_eq_iff_findsUses` what is found in a whole script.
-/
import Mathlib.Data.List.TakeWhile
import MissionText.Proofs.Script.Grammar
import MissionText.Proofs.Text.Folding
import MissionText.Script.Extraction

namespace MissionText

/-! ## Identifiers -/

/-- A character with its case ignored: the simple case folding of Unicode, for
    the characters that it turns into ASCII. -/
def foldedToAscii (c : Char) : Char :=
  if c = '\u017F' then 's' else if c = '\u212A' then 'k' else c.toLower

/-- A letter, a digit or an underscore, in any case. -/
def IsWordChar (c : Char) : Prop :=
  ('a' ≤ foldedToAscii c ∧ foldedToAscii c ≤ 'z') ∨
    ('0' ≤ foldedToAscii c ∧ foldedToAscii c ≤ '9') ∨ foldedToAscii c = '_'

instance (c : Char) : Decidable (IsWordChar c) :=
  inferInstanceAs (Decidable (_ ∨ _))

/-- The letters `str_` and at least one more word character, in any case. -/
def IsIdentifier (name : List Char) : Prop :=
  ∃ mark tail, mark.map foldedToAscii = ['s', 't', 'r', '_'] ∧ tail ≠ [] ∧
    (∀ c ∈ tail, IsWordChar c) ∧ name = mark ++ tail

theorem isAlphanum_of_not_ascii {c : Char} (h : ¬ c.toNat < 0x80) : c.isAlphanum = false := by
  have h' : ¬ c.val.toNat < 0x80 := h
  delta Char.isAlphanum Char.isAlpha Char.isUpper Char.isLower Char.isDigit
  simp only [UInt32.le_iff_toNat_le, ge_iff_le, Char.reduceVal, UInt32.reduceToNat,
    Bool.or_eq_false_iff, Bool.and_eq_false_iff, decide_eq_false_iff_not]
  omega

/-- The characters of ASCII, and two more, are folded to ASCII. -/
theorem foldedToAscii_of_not_ascii {c : Char} (h : ¬ c.toNat < 0x80) :
    (c = '\u017F' ∧ foldedToAscii c = 's') ∨ (c = '\u212A' ∧ foldedToAscii c = 'k') ∨
      (c ≠ '\u017F' ∧ c ≠ '\u212A' ∧ foldedToAscii c = c) := by
  unfold foldedToAscii
  split_ifs with hs hk
  · exact .inl ⟨hs, rfl⟩
  · exact .inr (.inl ⟨hk, rfl⟩)
  · exact .inr (.inr ⟨hs, hk, toLower_of_not_ascii h⟩)

theorem isIdentifierChar_iff {c : Char} : isIdentifierChar c = true ↔ IsWordChar c := by
  by_cases h : c.toNat < 0x80
  · have hall : ∀ n < 0x80, isIdentifierChar (Char.ofNat n) = true ↔ IsWordChar (Char.ofNat n) := by
      decide +kernel
    simpa using hall c.toNat h
  · rcases foldedToAscii_of_not_ascii h with ⟨rfl, -⟩ | ⟨rfl, -⟩ | ⟨hs, hk, hfold⟩
    · decide
    · decide
    · have hu : c ≠ '_' := fun he => h (he ▸ by decide)
      have hz : ¬ c ≤ 'z' := fun hle => h (lt_of_le_of_lt hle (by decide))
      have h9 : ¬ c ≤ '9' := fun hle => h (lt_of_le_of_lt hle (by decide))
      simp [isIdentifierChar, isAlphanum_of_not_ascii h, IsWordChar, hfold, hs, hk, hu, hz, h9]

/-- The characters of `str_` in any case. -/
theorem foldedToAscii_mark_iff (c : Char) :
    (foldedToAscii c = 's' ↔ isLetterS c = true) ∧ (foldedToAscii c = 't' ↔ c = 't' ∨ c = 'T') ∧
      (foldedToAscii c = 'r' ↔ c = 'r' ∨ c = 'R') ∧ (foldedToAscii c = '_' ↔ c = '_') := by
  by_cases h : c.toNat < 0x80
  · have hall : ∀ n < 0x80, (foldedToAscii (Char.ofNat n) = 's' ↔ isLetterS (Char.ofNat n) = true) ∧
        (foldedToAscii (Char.ofNat n) = 't' ↔ Char.ofNat n = 't' ∨ Char.ofNat n = 'T') ∧
        (foldedToAscii (Char.ofNat n) = 'r' ↔ Char.ofNat n = 'r' ∨ Char.ofNat n = 'R') ∧
        (foldedToAscii (Char.ofNat n) = '_' ↔ Char.ofNat n = '_') := by
      decide +kernel
    simpa using hall c.toNat h
  · rcases foldedToAscii_of_not_ascii h with ⟨rfl, -⟩ | ⟨rfl, -⟩ | ⟨hs, -, hfold⟩
    · decide
    · decide
    · have hne {d : Char} (hd : d.toNat < 0x80) : c ≠ d := fun he => h (he ▸ hd)
      have hs' : isLetterS c = false := by
        simp [isLetterS, hs, hne (d := 's') (by decide), hne (d := 'S') (by decide)]
      simp [hfold, hs', hne (d := 's') (by decide), hne (d := 'T') (by decide),
        hne (d := 'R') (by decide)]

theorem isMark_iff {s t r u : Char} :
    (isLetterS s && (t == 't' || t == 'T') && (r == 'r' || r == 'R') && u == '_') = true ↔
      [s, t, r, u].map foldedToAscii = ['s', 't', 'r', '_'] := by
  simp [foldedToAscii_mark_iff, and_assoc]

/-- **An identifier is read** from the front of a text, as long as it goes. -/
theorem identifierAt?_eq_some_iff {cs name rest : List Char} :
    identifierAt? cs = some (name, rest) ↔
      IsIdentifier name ∧ StartsOutside isIdentifierChar rest ∧ cs = name ++ rest := by
  constructor
  · intro h
    unfold identifierAt? at h
    split at h
    · next s t r u tail =>
      split_ifs at h with hread
      obtain ⟨rfl, rfl⟩ := Prod.mk.inj (Option.some.inj h)
      rw [Bool.and_eq_true, isMark_iff] at hread
      obtain ⟨hmark, hne⟩ := hread
      refine ⟨⟨[s, t, r, u], _, hmark, by simpa using hne, fun c hc => ?_, rfl⟩,
        startsOutside_dropWhile _ _, by simp⟩
      exact isIdentifierChar_iff.1 (List.mem_takeWhile_imp hc)
    · cases h
  · rintro ⟨⟨mark, tail, hmark, hne, htail, rfl⟩, hrest, rfl⟩
    obtain ⟨s, t, r, u, rfl⟩ : ∃ s t r u, mark = [s, t, r, u] :=
      List.length_eq_four.1 (by simpa using congrArg List.length hmark)
    have hall : ∀ c ∈ tail, isIdentifierChar c = true := fun c hc =>
      isIdentifierChar_iff.2 (htail c hc)
    have htake : (tail ++ rest).takeWhile isIdentifierChar = tail := by
      rw [List.takeWhile_append_of_pos hall, hrest.takeWhile, List.append_nil]
    have hdrop : (tail ++ rest).dropWhile isIdentifierChar = rest := by
      rw [List.dropWhile_append_of_pos hall, hrest.dropWhile]
    have hread : (isLetterS s && (t == 't' || t == 'T') && (r == 'r' || r == 'R') && u == '_' &&
        !tail.isEmpty) = true := by
      rw [Bool.and_eq_true, isMark_iff]
      exact ⟨hmark, by simpa using hne⟩
    simp only [List.cons_append, List.nil_append, identifierAt?, htake, hdrop, if_pos hread]

/-- The long s and the Kelvin sign are letters of identifiers, a minus is none. -/
example : identifierAt? "\u017FTR_\u212A-b".toList =
    some ("\u017FTR_\u212A".toList, "-b".toList) := by
  decide

/-- An identifier is read where one starts, even if a longer one starts there. -/
theorem isSome_identifierAt?_iff {cs : List Char} :
    (identifierAt? cs).isSome = true ↔ ∃ name, IsIdentifier name ∧ name <+: cs := by
  rw [Option.isSome_iff_exists]
  constructor
  · rintro ⟨⟨name, rest⟩, h⟩
    obtain ⟨hname, -, rfl⟩ := identifierAt?_eq_some_iff.1 h
    exact ⟨name, hname, List.prefix_append name rest⟩
  · rintro ⟨_, ⟨mark, tail, hmark, hne, htail, rfl⟩, rest, rfl⟩
    refine ⟨(mark ++ (tail ++ rest.takeWhile isIdentifierChar), rest.dropWhile isIdentifierChar),
      identifierAt?_eq_some_iff.2 ⟨⟨mark, _, hmark, by simp [hne], fun c hc => ?_, rfl⟩,
        startsOutside_dropWhile _ _, by simp⟩⟩
    rcases List.mem_append.1 hc with hc | hc
    · exact htail c hc
    · exact isIdentifierChar_iff.1 (List.mem_takeWhile_imp hc)

theorem IsIdentifier.length_pos {name : List Char} (h : IsIdentifier name) : 0 < name.length := by
  obtain ⟨mark, tail, -, hne, -, rfl⟩ := h
  have := List.length_pos_iff.2 hne
  rw [List.length_append]
  omega

/-! ## Spans -/

/-- A part of a line with the place where it starts. -/
structure NameSpan where
  start : Nat
  name : List Char
  deriving Repr, DecidableEq

namespace NameSpan

/-- The place after a span. -/
def stop (o : NameSpan) : Nat := o.start + o.name.length

/-- The place lies inside a span. -/
def Covers (o : NameSpan) (place : Nat) : Prop := o.start ≤ place ∧ place < o.stop

/-- The span in a line with more text in front. -/
def shift (length : Nat) (o : NameSpan) : NameSpan := ⟨length + o.start, o.name⟩

end NameSpan

/-- An identifier stands in a line at its place and goes on as long as it can. -/
structure NameSpan.IsIn (o : NameSpan) (line : List Char) : Prop where
  isIdentifier : IsIdentifier o.name
  stands : o.name <+: line.drop o.start
  maximal : ∀ c ∈ (line.drop o.stop).head?, ¬ IsWordChar c

/-- An identifier starts at a place in a line. -/
def StartsAt (line : List Char) (place : Nat) : Prop :=
  ∃ name, IsIdentifier name ∧ name <+: line.drop place

/-- The identifiers of a line are found with their places. -/
structure FindsAll (line : List Char) (found : List NameSpan) : Prop where
  isIn : ∀ o ∈ found, o.IsIn line
  /-- They are found from the left, none over another. -/
  ordered : found.Pairwise fun a b => a.stop ≤ b.start
  /-- Wherever an identifier starts, that place is inside exactly one of them. -/
  covered : ∀ place, StartsAt line place → ∃! o, o ∈ found ∧ o.Covers place

namespace NameSpan

theorem shift_injective (n : Nat) : Function.Injective (shift n) := by
  rintro ⟨start, name⟩ ⟨start', name'⟩ h
  simp only [shift, mk.injEq, Nat.add_left_cancel_iff] at h
  rw [h.1, h.2]

theorem stop_shift (n : Nat) (o : NameSpan) : (o.shift n).stop = n + o.stop :=
  Nat.add_assoc n o.start o.name.length

theorem covers_shift_iff {n place : Nat} {o : NameSpan} :
    (o.shift n).Covers (n + place) ↔ o.Covers place := by
  rw [Covers, Covers, stop_shift]
  exact and_congr Nat.add_le_add_iff_left Nat.add_lt_add_iff_left

theorem isIn_shift_iff {xs cs : List Char} {o : NameSpan} :
    (o.shift xs.length).IsIn (xs ++ cs) ↔ o.IsIn cs := by
  have hdrop (n : Nat) : (xs ++ cs).drop (xs.length + n) = cs.drop n := by simp
  have hstart : (o.shift xs.length).start = xs.length + o.start := rfl
  constructor
  · rintro ⟨hname, hstands, hmax⟩
    rw [hstart, hdrop] at hstands
    rw [stop_shift, hdrop] at hmax
    exact ⟨hname, hstands, hmax⟩
  · rintro ⟨hname, hstands, hmax⟩
    refine ⟨hname, ?_, ?_⟩
    · rw [hstart, hdrop]
      exact hstands
    · rw [stop_shift, hdrop]
      exact hmax

/-- Spans that start behind some text are those of the line without it. -/
theorem exists_map_shift_eq {n : Nat} {found : List NameSpan} (h : ∀ o ∈ found, n ≤ o.start) :
    ∃ found' : List NameSpan, found = found'.map (shift n) := by
  refine ⟨found.map fun o => ⟨o.start - n, o.name⟩, ?_⟩
  rw [List.map_map]
  symm
  refine (List.map_congr_left fun o ho => ?_).trans (List.map_id found)
  simp [shift, Nat.add_sub_cancel' (h o ho)]

end NameSpan

theorem startsAt_append_iff {xs cs : List Char} {place : Nat} :
    StartsAt (xs ++ cs) (xs.length + place) ↔ StartsAt cs place := by
  have hdrop : (xs ++ cs).drop (xs.length + place) = cs.drop place := by simp
  rw [StartsAt, StartsAt, hdrop]

/-! ## Scanning -/

/-- Text in front of a line, in which `front` is found, is scanned over. -/
theorem findsAll_append_iff (xs : List Char) {cs : List Char} (front : List NameSpan)
    {found : List NameSpan} (hfront : ∀ o ∈ front, o.IsIn (xs ++ cs))
    (hstop : ∀ o ∈ front, o.stop ≤ xs.length)
    (hordered : front.Pairwise fun a b => a.stop ≤ b.start)
    (hcovered : ∀ place < xs.length, StartsAt (xs ++ cs) place →
      ∃! o, o ∈ front ∧ o.Covers place) :
    FindsAll (xs ++ cs) (front ++ found.map (NameSpan.shift xs.length)) ↔ FindsAll cs found := by
  have hbehind {o : NameSpan} {place : Nat} (h : (o.shift xs.length).Covers place) :
      xs.length ≤ place := (Nat.le_add_right _ _).trans h.1
  have hbefore {o : NameSpan} {place : Nat} (ho : o ∈ front) (h : o.Covers place) :
      place < xs.length := h.2.trans_le (hstop o ho)
  constructor
  · intro h
    refine ⟨fun o ho => ?_, ?_, fun place hplace => ?_⟩
    · exact NameSpan.isIn_shift_iff.1
        (h.isIn _ (List.mem_append_right _ (List.mem_map_of_mem ho)))
    · have hshifted := (List.pairwise_append.1 h.ordered).2.1
      rw [List.pairwise_map] at hshifted
      refine hshifted.imp fun {a b} hab => ?_
      rw [NameSpan.stop_shift] at hab
      exact Nat.add_le_add_iff_left.1 hab
    · obtain ⟨o, ⟨ho, hcovers⟩, huniq⟩ := h.covered _ (startsAt_append_iff.2 hplace)
      rcases List.mem_append.1 ho with ho | ho
      · exact absurd (hbefore ho hcovers) (by omega)
      · obtain ⟨p, hp, rfl⟩ := List.mem_map.1 ho
        refine ⟨p, ⟨hp, NameSpan.covers_shift_iff.1 hcovers⟩, ?_⟩
        rintro o' ⟨ho', hcovers'⟩
        exact NameSpan.shift_injective _ (huniq _ ⟨List.mem_append_right _
          (List.mem_map_of_mem ho'), NameSpan.covers_shift_iff.2 hcovers'⟩)
  · intro h
    refine ⟨?_, ?_, fun place hplace => ?_⟩
    · rw [List.forall_mem_append, List.forall_mem_map]
      exact ⟨hfront, fun o ho => NameSpan.isIn_shift_iff.2 (h.isIn o ho)⟩
    · rw [List.pairwise_append, List.pairwise_map]
      refine ⟨hordered, h.ordered.imp fun {a b} hab => ?_, fun a ha b hb => ?_⟩
      · rw [NameSpan.stop_shift]
        exact Nat.add_le_add_left hab _
      · obtain ⟨b, -, rfl⟩ := List.mem_map.1 hb
        exact (hstop a ha).trans (Nat.le_add_right _ _)
    · rcases Nat.lt_or_ge place xs.length with hlt | hge
      · obtain ⟨o, ⟨ho, hcovers⟩, huniq⟩ := hcovered place hlt hplace
        refine ⟨o, ⟨List.mem_append_left _ ho, hcovers⟩, ?_⟩
        rintro o' ⟨ho', hcovers'⟩
        rcases List.mem_append.1 ho' with ho' | ho'
        · exact huniq o' ⟨ho', hcovers'⟩
        · obtain ⟨o', -, rfl⟩ := List.mem_map.1 ho'
          exact absurd (hbehind hcovers') (by omega)
      · obtain ⟨place, rfl⟩ := Nat.exists_eq_add_of_le hge
        obtain ⟨o, ⟨ho, hcovers⟩, huniq⟩ := h.covered place (startsAt_append_iff.1 hplace)
        refine ⟨o.shift xs.length, ⟨List.mem_append_right _ (List.mem_map_of_mem ho),
          NameSpan.covers_shift_iff.2 hcovers⟩, ?_⟩
        rintro o' ⟨ho', hcovers'⟩
        rcases List.mem_append.1 ho' with ho' | ho'
        · exact absurd (hbefore ho' hcovers') (by omega)
        · obtain ⟨p, hp, rfl⟩ := List.mem_map.1 ho'
          rw [huniq p ⟨hp, NameSpan.covers_shift_iff.1 hcovers'⟩]

/-- Nothing is found in a line without text. -/
theorem findsAll_nil_iff {found : List NameSpan} : FindsAll [] found ↔ found = [] := by
  have hnone (o : NameSpan) : ¬ o.IsIn [] := by
    rintro ⟨hname, hstands, -⟩
    rw [List.drop_nil, List.prefix_nil] at hstands
    exact absurd hname.length_pos (by simp [hstands])
  constructor
  · intro h
    exact List.eq_nil_iff_forall_not_mem.2 fun o ho => hnone o (h.isIn o ho)
  · rintro rfl
    refine ⟨by simp, .nil, ?_⟩
    rintro place ⟨name, hname, hstands⟩
    rw [List.drop_nil, List.prefix_nil] at hstands
    exact absurd hname.length_pos (by simp [hstands])

/-- **A character at which no identifier starts** is passed over. -/
theorem findsAll_cons_iff {c : Char} {cs : List Char} (h : identifierAt? (c :: cs) = none)
    {found : List NameSpan} :
    FindsAll (c :: cs) found ↔ ∃ found', FindsAll cs found' ∧ found = found'.map (.shift 1) := by
  have hstart : ¬ StartsAt (c :: cs) 0 := by
    rw [StartsAt, List.drop_zero, ← isSome_identifierAt?_iff, h]
    exact Bool.false_ne_true
  have hstep (found' : List NameSpan) :
      FindsAll (c :: cs) (found'.map (.shift 1)) ↔ FindsAll cs found' := by
    refine findsAll_append_iff [c] [] (by simp) (by simp) .nil ?_
    intro place hlt hplace
    obtain rfl : place = 0 := by simpa using hlt
    exact absurd hplace hstart
  constructor
  · intro hall
    have hpos : ∀ o ∈ found, 1 ≤ o.start := by
      intro o ho
      by_contra hzero
      have hname := hall.isIn o ho
      refine hstart ⟨o.name, hname.isIdentifier, ?_⟩
      have := hname.stands
      rwa [show o.start = 0 by omega] at this
    obtain ⟨found', rfl⟩ := NameSpan.exists_map_shift_eq hpos
    exact ⟨found', (hstep found').1 hall, rfl⟩
  · rintro ⟨found', hall, rfl⟩
    exact (hstep found').2 hall

theorem NameSpan.IsIn.identifierAt?_eq {line : List Char} {o : NameSpan} (h : o.IsIn line) :
    identifierAt? (line.drop o.start) = some (o.name, line.drop o.stop) := by
  obtain ⟨hname, ⟨rest, hrest⟩, hmax⟩ := h
  have hstop : line.drop o.stop = rest := by
    rw [stop, ← List.drop_drop, ← hrest, List.drop_left]
  refine identifierAt?_eq_some_iff.2 ⟨hname, fun c hc => ?_, by rw [hstop, hrest]⟩
  rw [← Bool.not_eq_true, isIdentifierChar_iff]
  exact hmax c hc

/-- **An identifier at the start of a line** is found, and the rest of the line is
    scanned behind it. -/
theorem findsAll_identifier_iff {line name rest : List Char}
    (h : identifierAt? line = some (name, rest)) {found : List NameSpan} :
    FindsAll line found ↔
      ∃ found', FindsAll rest found' ∧ found = ⟨0, name⟩ :: found'.map (.shift name.length) := by
  obtain ⟨hname, hrest, rfl⟩ := identifierAt?_eq_some_iff.1 h
  have hin : NameSpan.IsIn ⟨0, name⟩ (name ++ rest) := by
    refine ⟨hname, List.prefix_append name rest, fun c hc => ?_⟩
    rw [NameSpan.stop, Nat.zero_add, List.drop_left] at hc
    rw [← isIdentifierChar_iff, hrest c hc]
    exact Bool.false_ne_true
  have hstop : NameSpan.stop ⟨0, name⟩ = name.length := Nat.zero_add _
  have hstep (found' : List NameSpan) :
      FindsAll (name ++ rest) (⟨0, name⟩ :: found'.map (.shift name.length)) ↔
        FindsAll rest found' := by
    refine findsAll_append_iff name [⟨0, name⟩] (by simpa using hin) (by simp [hstop])
      (List.pairwise_singleton _ _) fun place hlt _ => ⟨⟨0, name⟩, ?_, ?_⟩
    · exact ⟨List.mem_singleton_self _, Nat.zero_le place, hstop ▸ hlt⟩
    · rintro o ⟨ho, -⟩
      exact List.mem_singleton.1 ho
  constructor
  · intro hall
    obtain ⟨o, ⟨ho, hcovers⟩, -⟩ := hall.covered 0 ⟨name, hname, List.prefix_append name rest⟩
    have hzero : o.start = 0 := Nat.le_zero.1 hcovers.1
    obtain rfl : o = ⟨0, name⟩ := by
      have hread := (hall.isIn o ho).identifierAt?_eq
      rw [hzero, List.drop_zero, h] at hread
      obtain ⟨start, name'⟩ := o
      obtain ⟨rfl, -⟩ := Prod.mk.inj (Option.some.inj hread)
      exact congrArg (NameSpan.mk · name) hzero
    obtain ⟨before, after, rfl⟩ := List.append_of_mem ho
    obtain ⟨-, hafter, hbefore⟩ := List.pairwise_append.1 hall.ordered
    -- No identifier ends at the start of the line, so this one is the first.
    obtain rfl : before = [] := by
      refine List.eq_nil_iff_forall_not_mem.2 fun a ha => ?_
      have hpos := (hall.isIn a (List.mem_append_left _ ha)).isIdentifier.length_pos
      have hle := hbefore a ha _ List.mem_cons_self
      rw [NameSpan.stop] at hle
      omega
    have hbehind : ∀ a ∈ after, name.length ≤ a.start := by
      intro a ha
      rw [← hstop]
      exact (List.pairwise_cons.1 hafter).1 a ha
    obtain ⟨found', rfl⟩ := NameSpan.exists_map_shift_eq hbehind
    exact ⟨found', (hstep found').1 hall, rfl⟩
  · rintro ⟨found', hall, rfl⟩
    exact (hstep found').2 hall

theorem map_name_map_shift (n : Nat) (found : List NameSpan) :
    (found.map (.shift n)).map NameSpan.name = found.map NameSpan.name := by
  rw [List.map_map]
  rfl

theorem exists_findsAll (line : List Char) :
    ∃ found, FindsAll line found ∧ found.map NameSpan.name = identifiers line := by
  fun_induction identifiers line with
  | case1 line name rest h _ ih =>
    obtain ⟨found, hall, hnames⟩ := ih
    refine ⟨_, (findsAll_identifier_iff h).2 ⟨found, hall, rfl⟩, ?_⟩
    rw [List.map_cons, map_name_map_shift, hnames]
  | case2 h => exact ⟨[], findsAll_nil_iff.2 rfl, rfl⟩
  | case3 c cs h ih =>
    obtain ⟨found, hall, hnames⟩ := ih
    refine ⟨_, (findsAll_cons_iff h).2 ⟨found, hall, rfl⟩, ?_⟩
    rw [map_name_map_shift, hnames]

theorem FindsAll.map_name {line : List Char} {found : List NameSpan} (hall : FindsAll line found) :
    found.map NameSpan.name = identifiers line := by
  fun_induction identifiers line generalizing found with
  | case1 line name rest h _ ih =>
    obtain ⟨found, hrest, rfl⟩ := (findsAll_identifier_iff h).1 hall
    rw [List.map_cons, map_name_map_shift, ih hrest]
  | case2 h => rw [findsAll_nil_iff.1 hall, List.map_nil]
  | case3 c cs h ih =>
    obtain ⟨found, hrest, rfl⟩ := (findsAll_cons_iff h).1 hall
    rw [map_name_map_shift, ih hrest]

/-- **The identifiers of a line** are those that stand in it, all of them and each
    once, from the left. -/
theorem identifiers_eq_iff_findsAll {line : List Char} {names : List (List Char)} :
    identifiers line = names ↔
      ∃ found, FindsAll line found ∧ found.map NameSpan.name = names := by
  constructor
  · rintro rfl
    exact exists_findsAll line
  · rintro ⟨found, hall, rfl⟩
    exact hall.map_name.symm

/-! ## The lines of a script -/

/-- An identifier with the number of the line that it stands in. -/
structure LineSpan where
  line : Nat
  span : NameSpan
  deriving Repr, DecidableEq

namespace LineSpan

/-- The use of an identifier where it stands. -/
def use (o : LineSpan) : IdentifierUse := ⟨o.line, String.ofList o.span.name⟩

/-- In an earlier line, or to the left in the same line. -/
def Before (a b : LineSpan) : Prop :=
  a.line < b.line ∨ a.line = b.line ∧ a.span.stop ≤ b.span.start

theorem Before.line_le {a b : LineSpan} (h : a.Before b) : a.line ≤ b.line := by
  rcases h with h | h
  · exact h.le
  · exact h.1.le

end LineSpan

/-- The identifiers of numbered lines are found with their places. -/
structure FindsUses (lines : List (List Char × Nat)) (found : List LineSpan) : Prop where
  isIn : ∀ o ∈ found, ∃ line, (line, o.line) ∈ lines ∧ o.span.IsIn line
  /-- They are found line by line, and from the left in each, none over another. -/
  ordered : found.Pairwise LineSpan.Before
  /-- Wherever an identifier starts, that place is inside exactly one of them. -/
  covered : ∀ line number, (line, number) ∈ lines → ∀ place, StartsAt line place →
    ∃! o, o ∈ found ∧ o.line = number ∧ o.span.Covers place

/-- What is found in the first line comes first. -/
theorem exists_eq_append_of_ordered {number : Nat} {found : List LineSpan}
    (hordered : found.Pairwise LineSpan.Before) (hle : ∀ o ∈ found, number ≤ o.line) :
    ∃ (here : List NameSpan) (behind : List LineSpan),
      found = here.map (LineSpan.mk number) ++ behind ∧ ∀ o ∈ behind, number < o.line := by
  induction found with
  | nil => exact ⟨[], [], rfl, List.forall_mem_nil _⟩
  | cons o found ih =>
    obtain ⟨ho, hordered⟩ := List.pairwise_cons.1 hordered
    obtain ⟨hfirst, hle⟩ := List.forall_mem_cons.1 hle
    rcases hfirst.eq_or_lt with rfl | hlt
    · obtain ⟨here, behind, rfl, hbehind⟩ := ih hordered hle
      exact ⟨o.span :: here, behind, rfl, hbehind⟩
    · refine ⟨[], o :: found, rfl, List.forall_mem_cons.2 ⟨hlt, fun o' ho' => ?_⟩⟩
      exact hlt.trans_le (ho o' ho').line_le

section Step

variable {line : List Char} {number : Nat} {lines : List (List Char × Nat)}

section

variable {here : List NameSpan} {behind : List LineSpan}

theorem existsUnique_behind_iff {number' place : Nat} (h : number < number') :
    (∃! o, o ∈ here.map (LineSpan.mk number) ++ behind ∧ o.line = number' ∧ o.span.Covers place) ↔
      ∃! o, o ∈ behind ∧ o.line = number' ∧ o.span.Covers place := by
  refine existsUnique_congr fun o => and_congr_left ?_
  rintro ⟨rfl, -⟩
  rw [List.mem_append, or_iff_right]
  intro ho
  obtain ⟨span, -, rfl⟩ := List.mem_map.1 ho
  exact h.false

variable (hbehind : ∀ o ∈ behind, number < o.line)
include hbehind

theorem existsUnique_here_iff {place : Nat} :
    (∃! o, o ∈ here.map (LineSpan.mk number) ++ behind ∧ o.line = number ∧ o.span.Covers place) ↔
      ∃! o, o ∈ here ∧ o.Covers place := by
  have hmem {o : LineSpan} (ho : o ∈ here.map (LineSpan.mk number) ++ behind)
      (hline : o.line = number) : o.span ∈ here ∧ o = ⟨number, o.span⟩ := by
    rcases List.mem_append.1 ho with ho | ho
    · obtain ⟨span, hspan, rfl⟩ := List.mem_map.1 ho
      exact ⟨hspan, rfl⟩
    · exact absurd hline (hbehind o ho).ne'
  have hmk {span : NameSpan} (h : span ∈ here) :
      LineSpan.mk number span ∈ here.map (LineSpan.mk number) ++ behind :=
    List.mem_append_left _ (List.mem_map_of_mem h)
  constructor
  · rintro ⟨o, ⟨ho, hline, hcovers⟩, huniq⟩
    refine ⟨o.span, ⟨(hmem ho hline).1, hcovers⟩, ?_⟩
    rintro span ⟨hspan, hcovers'⟩
    exact congrArg LineSpan.span (huniq ⟨number, span⟩ ⟨hmk hspan, rfl, hcovers'⟩)
  · rintro ⟨span, ⟨hspan, hcovers⟩, huniq⟩
    refine ⟨⟨number, span⟩, ⟨hmk hspan, rfl, hcovers⟩, ?_⟩
    rintro o ⟨ho, hline, hcovers'⟩
    obtain ⟨hspan', ho⟩ := hmem ho hline
    rw [ho, huniq o.span ⟨hspan', hcovers'⟩]

theorem pairwise_before_iff :
    (here.map (LineSpan.mk number) ++ behind).Pairwise LineSpan.Before ↔
      here.Pairwise (fun a b => a.stop ≤ b.start) ∧ behind.Pairwise LineSpan.Before := by
  have hsame (a b : NameSpan) :
      LineSpan.Before ⟨number, a⟩ ⟨number, b⟩ ↔ a.stop ≤ b.start := by
    simp [LineSpan.Before]
  have hacross : ∀ a ∈ here.map (LineSpan.mk number), ∀ b ∈ behind, a.Before b := by
    intro a ha b hb
    obtain ⟨span, -, rfl⟩ := List.mem_map.1 ha
    exact .inl (hbehind b hb)
  rw [List.pairwise_append, List.pairwise_map, and_iff_left hacross]
  simp only [hsame]

end

variable (hlater : ∀ l ∈ lines, number < l.2)
include hlater

/-- A line in front of others is scanned by itself. -/
theorem findsUses_append_iff {here : List NameSpan} {behind : List LineSpan}
    (hbehind : ∀ o ∈ behind, number < o.line) :
    FindsUses ((line, number) :: lines) (here.map (LineSpan.mk number) ++ behind) ↔
      FindsAll line here ∧ FindsUses lines behind := by
  have hfirst {line' : List Char} :
      (line', number) ∈ (line, number) :: lines ↔ line' = line := by
    rw [List.mem_cons, or_iff_left fun h => (hlater _ h).false, Prod.mk.injEq]
    exact and_iff_left rfl
  have hother {l : List Char × Nat} (h : number < l.2) :
      l ∈ (line, number) :: lines ↔ l ∈ lines := by
    rw [List.mem_cons, or_iff_right]
    rintro rfl
    exact h.false
  constructor
  · rintro ⟨hin, hordered, hcovered⟩
    obtain ⟨hhere, hthere⟩ := (pairwise_before_iff hbehind).1 hordered
    rw [List.forall_mem_append, List.forall_mem_map] at hin
    refine ⟨⟨fun o ho => ?_, hhere, fun place hplace => ?_⟩,
      ⟨fun o ho => ?_, hthere, fun line' number' hmem place hplace => ?_⟩⟩
    · obtain ⟨line', hmem, hstands⟩ := hin.1 o ho
      exact hfirst.1 hmem ▸ hstands
    · exact (existsUnique_here_iff hbehind).1
        (hcovered line number List.mem_cons_self place hplace)
    · obtain ⟨line', hmem, hstands⟩ := hin.2 o ho
      exact ⟨line', (hother (hbehind o ho)).1 hmem, hstands⟩
    · exact (existsUnique_behind_iff (hlater _ hmem)).1
        (hcovered line' number' (List.mem_cons_of_mem _ hmem) place hplace)
  · rintro ⟨hline, hlines⟩
    refine ⟨?_, (pairwise_before_iff hbehind).2 ⟨hline.ordered, hlines.ordered⟩, ?_⟩
    · rw [List.forall_mem_append, List.forall_mem_map]
      refine ⟨fun o ho => ⟨line, List.mem_cons_self, hline.isIn o ho⟩, fun o ho => ?_⟩
      obtain ⟨line', hmem, hstands⟩ := hlines.isIn o ho
      exact ⟨line', List.mem_cons_of_mem _ hmem, hstands⟩
    · intro line' number' hmem place hplace
      rcases List.mem_cons.1 hmem with heq | hmem
      · obtain ⟨rfl, rfl⟩ := Prod.mk.inj heq
        exact (existsUnique_here_iff hbehind).2 (hline.covered place hplace)
      · exact (existsUnique_behind_iff (hlater _ hmem)).2
          (hlines.covered line' number' hmem place hplace)

/-- **The identifiers of a line** are found before those of the lines after it. -/
theorem findsUses_cons_iff {found : List LineSpan} :
    FindsUses ((line, number) :: lines) found ↔
      ∃ here behind, FindsAll line here ∧ FindsUses lines behind ∧
        found = here.map (LineSpan.mk number) ++ behind := by
  constructor
  · intro hall
    have hle : ∀ o ∈ found, number ≤ o.line := by
      intro o ho
      obtain ⟨line', hmem, -⟩ := hall.isIn o ho
      rcases List.mem_cons.1 hmem with heq | hmem
      · exact (Prod.mk.inj heq).2.ge
      · exact (hlater _ hmem).le
    obtain ⟨here, behind, rfl, hbehind⟩ := exists_eq_append_of_ordered hall.ordered hle
    obtain ⟨hhere, hrest⟩ := (findsUses_append_iff hlater hbehind).1 hall
    exact ⟨here, behind, hhere, hrest, rfl⟩
  · rintro ⟨here, behind, hhere, hrest, rfl⟩
    have hbehind : ∀ o ∈ behind, number < o.line := by
      intro o ho
      obtain ⟨line', hmem, -⟩ := hrest.isIn o ho
      exact hlater _ hmem
    exact (findsUses_append_iff hlater hbehind).2 ⟨hhere, hrest⟩

end Step

theorem findsUses_nil_iff {found : List LineSpan} : FindsUses [] found ↔ found = [] := by
  constructor
  · intro h
    refine List.eq_nil_iff_forall_not_mem.2 fun o ho => ?_
    obtain ⟨line, hmem, -⟩ := h.isIn o ho
    exact absurd hmem List.not_mem_nil
  · rintro rfl
    exact ⟨List.forall_mem_nil _, .nil, fun _ _ hmem => absurd hmem List.not_mem_nil⟩

/-- The uses in a line of a number. -/
def usesInLine (l : List Char × Nat) : List IdentifierUse :=
  (identifiers l.1).map fun name => ⟨l.2, String.ofList name⟩

theorem map_use_map_mk (number : Nat) {line : List Char} {found : List NameSpan}
    (h : FindsAll line found) :
    (found.map (LineSpan.mk number)).map LineSpan.use = usesInLine (line, number) := by
  rw [usesInLine, ← h.map_name, List.map_map, List.map_map]
  rfl

/-- The induction is on the lines, with the number of the first one left open. -/
theorem flatMap_usesInLine_eq_iff {lines : List (List Char)} {first : Nat}
    {uses : List IdentifierUse} :
    (lines.zipIdx first).flatMap usesInLine = uses ↔
      ∃ found, FindsUses (lines.zipIdx first) found ∧ found.map LineSpan.use = uses := by
  induction lines generalizing first uses with
  | nil =>
    simp only [List.zipIdx_nil, List.flatMap_nil, findsUses_nil_iff, exists_eq_left, List.map_nil]
  | cons line lines ih =>
    have hlater : ∀ l ∈ lines.zipIdx (first + 1), first < l.2 := fun _ => List.le_snd_of_mem_zipIdx
    rw [List.zipIdx_cons, List.flatMap_cons]
    constructor
    · rintro rfl
      obtain ⟨here, hhere, -⟩ := exists_findsAll line
      obtain ⟨behind, hbehind, huses⟩ := ih.1 rfl
      refine ⟨_, (findsUses_cons_iff hlater).2 ⟨here, behind, hhere, hbehind, rfl⟩, ?_⟩
      rw [List.map_append, map_use_map_mk first hhere, huses]
    · rintro ⟨found, hall, rfl⟩
      obtain ⟨here, behind, hhere, hbehind, rfl⟩ := (findsUses_cons_iff hlater).1 hall
      rw [List.map_append, map_use_map_mk first hhere, ih.2 ⟨behind, hbehind, rfl⟩]

/-- **The uses of a script** are the identifiers that stand in its lines, all of them
    and each once: the lines counted from one, line by line, and from the left in
    each. -/
theorem identifierUses_eq_iff_findsUses {content : List Char} {uses : List IdentifierUse} :
    identifierUses content = uses ↔
      ∃ found, FindsUses ((Text.lines content).zipIdx 1) found ∧
        found.map LineSpan.use = uses := by
  have huses : identifierUses content = ((Text.lines content).zipIdx 1).flatMap usesInLine := by
    rw [List.zipIdx_succ, List.flatMap_map]
    rfl
  rw [huses]
  exact flatMap_usesInLine_eq_iff

end MissionText
