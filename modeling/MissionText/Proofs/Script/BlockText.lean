/-
  The text of a block.

  * `dropCommentEnds_append`: the first end of a comment is dropped with the white
    space before it; the text before and after it is put together.
  * `dropCommentEnds_escapeAngles`: it does not matter whether angle brackets are
    escaped before or after that.
-/
import MissionText.Proofs.Script.Grammar
import MissionText.Proofs.Text.Space

namespace MissionText

open Text

/-! ## Ends of comments -/

theorem dropCommentEnds_of_end {cs rest : List Char}
    (h : cs.dropWhile isSpace = '*' :: '/' :: rest) :
    dropCommentEnds cs = dropCommentEnds rest := by
  rw [dropCommentEnds]
  split
  · next rest' hend =>
    rw [h, commentEnd?_eq_some_iff] at hend
    simp_all
  · next hend =>
    rw [h] at hend
    cases hend

theorem dropCommentEnds_nil : dropCommentEnds [] = [] := by
  rw [dropCommentEnds]
  rfl

theorem dropCommentEnds_cons {c : Char} {cs : List Char}
    (h : commentEnd? ((c :: cs).dropWhile isSpace) = none) :
    dropCommentEnds (c :: cs) = c :: dropCommentEnds cs := by
  rw [dropCommentEnds]
  split
  · next rest hend =>
    rw [h] at hend
    cases hend
  · rfl

/-- Before a text without the end of a comment, one more can only start with its
    last character. -/
theorem commentEnd?_append_closer {cs : List Char} (hne : cs ≠ []) (h : ¬ closer <:+: cs)
    (ds : List Char) : commentEnd? (cs ++ '*' :: '/' :: ds) = none := by
  by_contra hsome
  obtain ⟨rest, hrest⟩ := Option.ne_none_iff_exists'.1 hsome
  rw [commentEnd?_eq_some_iff] at hrest
  rcases cs with _ | ⟨c, _ | ⟨d, cs⟩⟩
  · exact hne rfl
  · simp at hrest
  · simp only [List.cons_append, List.cons.injEq] at hrest
    obtain ⟨rfl, rfl, -⟩ := hrest
    exact h ⟨[], cs, rfl⟩

/-- **The end of a comment is dropped** with the white space before it. -/
theorem dropCommentEnds_append {xs : List Char} (h : ¬ closer <:+: xs) (ys : List Char) :
    ∃ kept blank, xs = kept ++ blank ∧ IsBlank blank ∧
      dropCommentEnds (xs ++ '*' :: '/' :: ys) = kept ++ dropCommentEnds ys := by
  induction xs with
  | nil => exact ⟨[], [], rfl, by simp [IsBlank], dropCommentEnds_of_end rfl⟩
  | cons c xs ih =>
    by_cases hblank : IsBlank (c :: xs)
    · refine ⟨[], c :: xs, rfl, hblank, dropCommentEnds_of_end ?_⟩
      rw [List.dropWhile_append_of_pos hblank]
      rfl
    · have hdrop : (c :: xs).dropWhile isSpace ≠ [] := by
        rw [ne_eq, List.dropWhile_eq_nil_iff]
        exact hblank
      have hsuffix : (c :: xs).dropWhile isSpace <:+ c :: xs := List.dropWhile_suffix _
      obtain ⟨kept, blank, rfl, hblank', hrest⟩ :=
        ih fun hxs => h (hxs.trans (List.suffix_cons c xs).isInfix)
      refine ⟨c :: kept, blank, rfl, hblank', ?_⟩
      rw [List.cons_append, dropCommentEnds_cons, hrest, List.cons_append]
      rw [← List.cons_append, List.dropWhile_append, if_neg (by simpa using hdrop)]
      exact commentEnd?_append_closer hdrop (fun hin => h (hin.trans hsuffix.isInfix)) ys

theorem dropCommentEnds_concat_space (cs : List Char) :
    dropCommentEnds (cs ++ [' ']) = dropCommentEnds cs ++ [' '] := by
  have hdrop (ds : List Char) : (ds ++ [' ']).dropWhile isSpace =
      if ds.dropWhile isSpace = [] then [] else ds.dropWhile isSpace ++ [' '] := by
    have hspace : isSpace ' ' = true := by decide
    simp [List.dropWhile_append, hspace]
  fun_induction dropCommentEnds cs with
  | case1 cs rest h _ ih =>
    rw [commentEnd?_eq_some_iff] at h
    have hend : (cs ++ [' ']).dropWhile isSpace = '*' :: '/' :: (rest ++ [' ']) := by
      simp [hdrop, h]
    rw [dropCommentEnds_of_end hend, ih]
  | case2 => rw [List.nil_append, dropCommentEnds_cons rfl, dropCommentEnds_nil]
  | case3 c cs h ih =>
    rw [List.cons_append, dropCommentEnds_cons, ih, List.cons_append]
    rw [← List.cons_append, hdrop]
    split_ifs with hnil
    · rfl
    · generalize (c :: cs).dropWhile isSpace = ds at h hnil
      rcases ds with _ | ⟨d, _ | ⟨e, ds⟩⟩
      · exact absurd rfl hnil
      · by_contra hsome
        obtain ⟨rest, hrest⟩ := Option.ne_none_iff_exists'.1 hsome
        simp [commentEnd?_eq_some_iff] at hrest
      · by_contra hsome
        obtain ⟨rest, hrest⟩ := Option.ne_none_iff_exists'.1 hsome
        simp only [commentEnd?_eq_some_iff, List.cons_append, List.cons.injEq] at hrest
        obtain ⟨rfl, rfl, -⟩ := hrest
        cases h

/-! ## Escaped text -/

theorem escapeAngles_append (xs ys : List Char) :
    escapeAngles (xs ++ ys) = escapeAngles xs ++ escapeAngles ys :=
  List.flatMap_append

theorem escapeAngles_cons (c : Char) (cs : List Char) :
    escapeAngles (c :: cs) = escapeAngles [c] ++ escapeAngles cs :=
  escapeAngles_append [c] cs

/-- A text that has no part in white space or in the end of a comment. -/
def IsInert (cs : List Char) : Prop := ∀ c ∈ cs, isSpace c = false ∧ c ≠ '*' ∧ c ≠ '/'

instance (cs : List Char) : Decidable (IsInert cs) :=
  List.decidableBAll (fun c => isSpace c = false ∧ c ≠ '*' ∧ c ≠ '/') cs

/-- A character stands for itself, or an entity is written for it. -/
theorem escapeAngles_singleton (c : Char) :
    escapeAngles [c] = [c] ∨ IsInert [c] ∧ escapeAngles [c] ≠ [] ∧ IsInert (escapeAngles [c]) := by
  by_cases hlt : c = '<'
  · subst hlt
    exact .inr ⟨by decide, by decide, by decide⟩
  · by_cases hgt : c = '>'
    · subst hgt
      exact .inr ⟨by decide, by decide, by decide⟩
    · left
      simp [escapeAngles, hlt, hgt]

/-- A character of the end of a comment is one of the text that is escaped. -/
theorem eq_of_escapeAngles_eq_cons {cs rest : List Char} {d : Char} (hd : d = '*' ∨ d = '/')
    (h : escapeAngles cs = d :: rest) : ∃ ds, cs = d :: ds ∧ rest = escapeAngles ds := by
  rcases cs with _ | ⟨c, cs⟩
  · cases h
  · rw [escapeAngles_cons] at h
    rcases escapeAngles_singleton c with heq | ⟨-, hne, hinert⟩
    · rw [heq] at h
      obtain ⟨rfl, rfl⟩ := List.cons.inj h
      exact ⟨cs, rfl, rfl⟩
    · obtain ⟨e, entity, hentity⟩ := List.exists_cons_of_ne_nil hne
      rw [hentity] at h hinert
      obtain ⟨rfl, -⟩ := List.cons.inj h
      have he := hinert e List.mem_cons_self
      rcases hd with hd | hd
      · exact absurd hd he.2.1
      · exact absurd hd he.2.2

theorem commentEnd?_escapeAngles {cs : List Char} (h : commentEnd? cs = none) :
    commentEnd? (escapeAngles cs) = none := by
  by_contra hsome
  obtain ⟨rest, hrest⟩ := Option.ne_none_iff_exists'.1 hsome
  rw [commentEnd?_eq_some_iff] at hrest
  obtain ⟨ds, rfl, hds⟩ := eq_of_escapeAngles_eq_cons (.inl rfl) hrest
  obtain ⟨es, rfl, -⟩ := eq_of_escapeAngles_eq_cons (.inr rfl) hds.symm
  cases h

theorem escapeAngles_of_isBlank {cs : List Char} (h : IsBlank cs) : escapeAngles cs = cs := by
  induction cs with
  | nil => rfl
  | cons c cs ih =>
    obtain ⟨hc, hcs⟩ := List.forall_mem_cons.1 h
    rw [escapeAngles_cons, ih hcs]
    rcases escapeAngles_singleton c with heq | ⟨hinert, -⟩
    · rw [heq, List.singleton_append]
    · rw [(hinert c List.mem_cons_self).1] at hc
      cases hc

theorem dropWhile_escapeAngles (cs : List Char) :
    (escapeAngles cs).dropWhile isSpace = escapeAngles (cs.dropWhile isSpace) := by
  induction cs with
  | nil => rfl
  | cons c cs ih =>
    by_cases hc : isSpace c = true
    · rw [escapeAngles_cons, escapeAngles_of_isBlank (isBlank_singleton hc),
        List.singleton_append, List.dropWhile_cons_of_pos hc, List.dropWhile_cons_of_pos hc, ih]
    · rw [List.dropWhile_cons_of_neg hc, escapeAngles_cons]
      rcases escapeAngles_singleton c with heq | ⟨-, hne, hinert⟩
      · rw [heq, List.singleton_append, List.dropWhile_cons_of_neg hc]
      · obtain ⟨d, entity, hentity⟩ := List.exists_cons_of_ne_nil hne
        rw [hentity] at hinert ⊢
        rw [List.cons_append,
          List.dropWhile_cons_of_neg (by simp [(hinert d List.mem_cons_self).1])]

theorem isBlank_escapeAngles_iff {cs : List Char} : IsBlank (escapeAngles cs) ↔ IsBlank cs := by
  have hnil (ds : List Char) : IsBlank ds ↔ ds.dropWhile isSpace = [] :=
    List.dropWhile_eq_nil_iff.symm
  rw [hnil, hnil, dropWhile_escapeAngles]
  constructor
  · intro h
    rcases hdrop : cs.dropWhile isSpace with _ | ⟨c, ds⟩
    · rfl
    · rw [hdrop, escapeAngles_cons, List.append_eq_nil_iff] at h
      rcases escapeAngles_singleton c with heq | ⟨-, hne, -⟩
      · rw [heq] at h
        cases h.1
      · exact absurd h.1 hne
  · intro h
    rw [h]
    rfl

theorem isBlank_intercalate_iff {lines : List (List Char)} :
    IsBlank (List.intercalate [' '] lines) ↔ ∀ line ∈ lines, IsBlank line := by
  induction lines with
  | nil => simp [IsBlank]
  | cons line lines ih =>
    rcases lines with _ | ⟨line', lines⟩
    · simp [IsBlank]
    · have hspace : isSpace ' ' = true := by decide
      rw [List.intercalate_cons_cons, List.forall_mem_cons, ← ih]
      simp only [IsBlank, List.forall_mem_append, List.forall_mem_singleton, hspace, and_true]

/-- The text of lines: angle brackets escaped, white space collapsed. -/
def plainText (lines : List (List Char)) : String :=
  String.ofList (joinWords ' ' (escapeAngles (List.intercalate [' '] lines)))

theorem plainText_eq_empty_iff {lines : List (List Char)} :
    plainText lines = "" ↔ ∀ line ∈ lines, IsBlank line := by
  have hjoin : joinWords ' ' ([] : List Char) = [] := rfl
  rw [plainText, ← isBlank_intercalate_iff, ← isBlank_escapeAngles_iff, String.ofList_eq_empty_iff,
    ← hjoin, joinWords_eq_iff, words_nil, words_eq_nil_iff, List.all_eq_true]
  rfl

theorem dropCommentEnds_inert {xs : List Char} (h : IsInert xs) (cs : List Char) :
    dropCommentEnds (xs ++ cs) = xs ++ dropCommentEnds cs := by
  induction xs with
  | nil => rfl
  | cons c xs ih =>
    obtain ⟨⟨hspace, hstar, -⟩, h⟩ := List.forall_mem_cons.1 h
    rw [List.cons_append, dropCommentEnds_cons, ih h, List.cons_append]
    rw [List.dropWhile_cons_of_neg (by simp [hspace])]
    by_contra hsome
    obtain ⟨rest, hrest⟩ := Option.ne_none_iff_exists'.1 hsome
    rw [commentEnd?_eq_some_iff] at hrest
    exact hstar (List.cons.inj hrest).1

/-- **Ends of comments are dropped before or after angle brackets are escaped.** -/
theorem dropCommentEnds_escapeAngles (cs : List Char) :
    dropCommentEnds (escapeAngles cs) = escapeAngles (dropCommentEnds cs) := by
  fun_induction dropCommentEnds cs with
  | case1 cs rest h _ ih =>
    rw [commentEnd?_eq_some_iff] at h
    have hend : (escapeAngles cs).dropWhile isSpace = '*' :: '/' :: escapeAngles rest := by
      rw [dropWhile_escapeAngles, h]
      rfl
    rw [dropCommentEnds_of_end hend, ih]
  | case2 => exact dropCommentEnds_nil
  | case3 c cs h ih =>
    rw [escapeAngles_cons c (dropCommentEnds cs), ← ih, escapeAngles_cons]
    rcases escapeAngles_singleton c with heq | ⟨-, -, hinert⟩
    · rw [heq, List.singleton_append, List.singleton_append, dropCommentEnds_cons]
      rw [← List.singleton_append, ← heq, ← escapeAngles_cons, dropWhile_escapeAngles]
      exact commentEnd?_escapeAngles h
    · exact dropCommentEnds_inert hinert _

end MissionText
