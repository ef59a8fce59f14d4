/-
  Words: the texts between white space.

  * `forall_mem_words`: words have characters, and none of them is white space.
  * `all_isSpace_joinWords`: joined words are blank exactly if the text was.
  * `words_append_cons`: white space divides a text into the words before and
    after it.
  * `joinWords_eq_iff`: joined words are the same exactly if the words are.
  * `squeeze` is a text with its runs of white space made single spaces, which is
    what joined words are after the first character (`joinWords_cons`).
-/
import Mathlib.Data.List.Infix
import Mathlib.Tactic.Common
import MissionText.Text.Space

namespace MissionText.Text

theorem words_nil : words [] = [] := rfl

theorem words_cons (c : Char) (cs : List Char) : words (c :: cs) =
    if isSpace c then words cs
    else match cs, words cs with
      | d :: _, w :: ws => if isSpace d then [c] :: w :: ws else (c :: w) :: ws
      | _, ws => [c] :: ws := by
  rfl

/-- A character that is not white space starts a word or is put before one. -/
theorem words_cons_of_not {c : Char} (h : isSpace c = false) (cs : List Char) :
    words (c :: cs) = [c] :: words cs ∨
      ∃ w ws, words cs = w :: ws ∧ words (c :: cs) = (c :: w) :: ws := by
  rw [words_cons, h, if_neg Bool.false_ne_true]
  rcases cs with _ | ⟨d, ds⟩
  · exact .inl rfl
  · rcases words (d :: ds) with _ | ⟨w, ws⟩
    · exact .inl rfl
    · by_cases hd : isSpace d = true
      · exact .inl (if_pos hd)
      · exact .inr ⟨w, ws, rfl, if_neg hd⟩

/-- **Words have characters, and none of them is white space.** -/
theorem forall_mem_words (cs : List Char) :
    ∀ w ∈ words cs, w ≠ [] ∧ ∀ c ∈ w, isSpace c = false := by
  induction cs with
  | nil =>
    rw [words_nil]
    exact List.forall_mem_nil _
  | cons c cs ih =>
    by_cases hc : isSpace c = true
    · rw [words_cons, if_pos hc]
      exact ih
    · have hc : isSpace c = false := Bool.eq_false_iff.2 hc
      rcases words_cons_of_not hc cs with hwords | ⟨w, ws, hcs, hwords⟩
      · rw [hwords]
        refine List.forall_mem_cons.2 ⟨⟨List.cons_ne_nil c [], ?_⟩, ih⟩
        exact List.forall_mem_cons.2 ⟨hc, List.forall_mem_nil _⟩
      · rw [hcs] at ih
        obtain ⟨hw, hws⟩ := List.forall_mem_cons.1 ih
        rw [hwords]
        exact List.forall_mem_cons.2
          ⟨⟨List.cons_ne_nil c w, List.forall_mem_cons.2 ⟨hc, hw.2⟩⟩, hws⟩

theorem words_eq_nil_iff {cs : List Char} : words cs = [] ↔ cs.all isSpace = true := by
  induction cs with
  | nil => rw [words_nil, List.all_nil, eq_self, eq_self]
  | cons c cs ih =>
    rw [List.all_cons, Bool.and_eq_true]
    by_cases hc : isSpace c = true
    · rw [words_cons, if_pos hc, ih, hc, eq_self, true_and]
    · have hne : words (c :: cs) ≠ [] := by
        rcases words_cons_of_not (Bool.eq_false_iff.2 hc) cs with hwords | ⟨w, ws, -, hwords⟩
        · rw [hwords]
          exact List.cons_ne_nil _ _
        · rw [hwords]
          exact List.cons_ne_nil _ _
      exact iff_of_false hne fun h => hc h.1

/-- **Joined words are blank exactly if the text was.** -/
theorem all_isSpace_joinWords (separator : Char) (cs : List Char) :
    (joinWords separator cs).all isSpace = cs.all isSpace := by
  rcases hwords : words cs with _ | ⟨w, ws⟩
  · rw [joinWords, hwords, words_eq_nil_iff.1 hwords]
    rfl
  · have hblank : ¬ cs.all isSpace = true := by
      rw [← words_eq_nil_iff, hwords]
      exact List.cons_ne_nil w ws
    have hw := forall_mem_words cs w (hwords ▸ List.mem_cons_self)
    obtain ⟨c, w, rfl⟩ := List.exists_cons_of_ne_nil hw.1
    have hc : isSpace c = false := hw.2 c List.mem_cons_self
    rw [joinWords, hwords, Bool.eq_false_iff.2 hblank]
    rcases ws with _ | ⟨v, ws⟩
    · rw [List.intercalate_singleton, List.all_cons, hc, Bool.false_and]
    · rw [List.intercalate_cons_cons, List.cons_append, List.cons_append, List.all_cons, hc,
        Bool.false_and]

/-! ## Words of parts -/

theorem words_cons_of_isSpace {c : Char} (h : isSpace c = true) (cs : List Char) :
    words (c :: cs) = words cs := by
  rw [words_cons, if_pos h]

/-- A character that is not white space is put before the word that follows it. -/
theorem words_cons_cons {c d : Char} (hc : isSpace c = false) (hd : isSpace d = false)
    (cs : List Char) :
    ∃ w ws, words (d :: cs) = w :: ws ∧ words (c :: d :: cs) = (c :: w) :: ws := by
  obtain ⟨w, ws, hwords⟩ : ∃ w ws, words (d :: cs) = w :: ws := by
    rcases words_cons_of_not hd cs with h | ⟨w, ws, -, h⟩
    · exact ⟨_, _, h⟩
    · exact ⟨_, _, h⟩
  refine ⟨w, ws, hwords, ?_⟩
  rw [words_cons, if_neg (by simp [hc]), hwords]
  simp [hd]

/-- A character that is not white space is a word if white space follows it. -/
theorem words_cons_space {c s : Char} (hc : isSpace c = false) (hs : isSpace s = true)
    (cs : List Char) : words (c :: s :: cs) = [c] :: words cs := by
  rw [words_cons, if_neg (by simp [hc]), words_cons_of_isSpace hs]
  cases words cs with
  | nil => rfl
  | cons w ws => simp [hs]

/-- **White space divides a text into the words before and after it.** -/
theorem words_append_cons {s : Char} (hs : isSpace s = true) (xs ys : List Char) :
    words (xs ++ s :: ys) = words xs ++ words ys := by
  induction xs with
  | nil => exact words_cons_of_isSpace hs ys
  | cons c xs ih =>
    by_cases hc : isSpace c = true
    · rw [List.cons_append, words_cons_of_isSpace hc, words_cons_of_isSpace hc, ih]
    · have hc : isSpace c = false := by simpa using hc
      cases xs with
      | nil =>
        rw [List.singleton_append, words_cons_space hc hs, words_cons, if_neg (by simp [hc])]
        rfl
      | cons d xs =>
        by_cases hd : isSpace d = true
        · rw [List.cons_append, List.cons_append, words_cons_space hc hd, words_cons_space hc hd]
          rw [List.cons_append, words_cons_of_isSpace hd, words_cons_of_isSpace hd] at ih
          rw [ih, List.cons_append]
        · have hd : isSpace d = false := by simpa using hd
          obtain ⟨w, ws, hws, hcons⟩ := words_cons_cons hc hd xs
          obtain ⟨w', ws', hws', hcons'⟩ := words_cons_cons hc hd (xs ++ s :: ys)
          rw [List.cons_append] at ih
          rw [hws', hws, List.cons_append] at ih
          obtain ⟨rfl, rfl⟩ := List.cons.inj ih
          rw [List.cons_append, List.cons_append, hcons', hcons, List.cons_append]

theorem words_append_blank (xs : List Char) {ys : List Char} (hys : ∀ c ∈ ys, isSpace c = true) :
    words (xs ++ ys) = words xs := by
  cases ys with
  | nil => rw [List.append_nil]
  | cons s ys =>
    obtain ⟨hs, hys⟩ := List.forall_mem_cons.1 hys
    rw [words_append_cons hs, words_eq_nil_iff.2 (List.all_eq_true.2 hys), List.append_nil]

/-- **The words of texts with spaces between them** are the words of each. -/
theorem words_intercalate (ls : List (List Char)) :
    words (List.intercalate [' '] ls) = ls.flatMap words := by
  induction ls with
  | nil => rfl
  | cons l ls ih =>
    cases ls with
    | nil => simp
    | cons l' ls =>
      rw [List.intercalate_cons_cons, List.append_assoc, List.singleton_append,
        words_append_cons (by decide), ih]
      rfl

/-- A text without white space is one word. -/
theorem words_of_forall {w : List Char} (hne : w ≠ []) (hw : ∀ c ∈ w, isSpace c = false) :
    words w = [w] := by
  induction w with
  | nil => exact absurd rfl hne
  | cons c w ih =>
    obtain ⟨hc, hw⟩ := List.forall_mem_cons.1 hw
    cases w with
    | nil =>
      rw [words_cons, if_neg (by simp [hc])]
      rfl
    | cons d w =>
      obtain ⟨v, vs, hv, hcons⟩ := words_cons_cons hc (hw d List.mem_cons_self) w
      rw [ih (List.cons_ne_nil d w) hw] at hv
      obtain ⟨rfl, rfl⟩ := List.cons.inj hv
      exact hcons

/-- **Joining the words of a text changes none of them.** -/
theorem words_joinWords (cs : List Char) : words (joinWords ' ' cs) = words cs := by
  have hwords : ∀ w ∈ words cs, words w = [w] := fun w hw =>
    words_of_forall (forall_mem_words cs w hw).1 (forall_mem_words cs w hw).2
  rw [joinWords, words_intercalate, List.flatMap_congr hwords]
  simp

theorem joinWords_eq_iff {cs ds : List Char} :
    joinWords ' ' cs = joinWords ' ' ds ↔ words cs = words ds := by
  constructor
  · intro h
    rw [← words_joinWords cs, h, words_joinWords]
  · intro h
    rw [joinWords, h, joinWords]

/-- The words of a text are its characters without white space. -/
theorem flatten_words (cs : List Char) : (words cs).flatten = cs.filter (!isSpace ·) := by
  induction cs with
  | nil => rfl
  | cons c cs ih =>
    by_cases hc : isSpace c = true
    · rw [words_cons_of_isSpace hc, List.filter_cons_of_neg (by simp [hc]), ih]
    · have hc : isSpace c = false := by simpa using hc
      rw [List.filter_cons_of_pos (by simp [hc]), ← ih]
      rcases words_cons_of_not hc cs with h | ⟨w, ws, hcs, h⟩
      · rw [h]
        rfl
      · rw [h, hcs]
        rfl

/-! ## Squeezing -/

theorem joinWords_cons_of_isSpace {c : Char} (h : isSpace c = true) (cs : List Char) :
    joinWords ' ' (c :: cs) = joinWords ' ' cs :=
  joinWords_eq_iff.2 (words_cons_of_isSpace h cs)

/-- A text with one space for each run of white space, and none at its end. -/
def squeeze (cs : List Char) : List Char :=
  match cs with
  | [] => []
  | c :: cs =>
    if isSpace c && !(words cs).isEmpty then ' ' :: joinWords ' ' cs else joinWords ' ' (c :: cs)

theorem joinWords_cons {c : Char} (h : isSpace c = false) (cs : List Char) :
    joinWords ' ' (c :: cs) = c :: squeeze cs := by
  cases cs with
  | nil =>
    rw [joinWords, words_of_forall (List.cons_ne_nil c []) (by simpa using h)]
    rfl
  | cons d cs =>
    by_cases hd : isSpace d = true
    · rw [joinWords, words_cons_space h hd, squeeze, joinWords_cons_of_isSpace hd, joinWords]
      cases words cs with
      | nil => simp
      | cons w ws => simp [hd, List.intercalate_cons_cons]
    · have hd : isSpace d = false := by simpa using hd
      obtain ⟨w, ws, hwords, hcons⟩ := words_cons_cons h hd cs
      rw [squeeze, hd, Bool.false_and, if_neg Bool.false_ne_true, joinWords, joinWords, hcons,
        hwords]
      cases ws with
      | nil => simp
      | cons v ws => simp [List.intercalate_cons_cons]

theorem squeeze_cons {c : Char} (h : isSpace c = false) (cs : List Char) :
    squeeze (c :: cs) = c :: squeeze cs := by
  rw [squeeze, h, Bool.false_and, if_neg Bool.false_ne_true, joinWords_cons h]

theorem squeeze_cons_of_isSpace {c : Char} (h : isSpace c = true) (cs : List Char) :
    squeeze (c :: cs) = if words cs = [] then [] else ' ' :: joinWords ' ' cs := by
  rw [squeeze, h, Bool.true_and, joinWords_cons_of_isSpace h]
  cases hwords : words cs with
  | nil => simp [joinWords, hwords]
  | cons w ws => simp

/-- Joined words start like the text after its white space. -/
theorem joinWords_eq_squeeze (cs : List Char) :
    joinWords ' ' cs = squeeze (cs.dropWhile isSpace) := by
  induction cs with
  | nil => rfl
  | cons c cs ih =>
    by_cases h : isSpace c = true
    · rw [joinWords_cons_of_isSpace h, List.dropWhile_cons_of_pos h, ih]
    · have h : isSpace c = false := by simpa using h
      rw [joinWords_cons h, List.dropWhile_cons_of_neg (by simp [h]), squeeze_cons h]

end MissionText.Text
