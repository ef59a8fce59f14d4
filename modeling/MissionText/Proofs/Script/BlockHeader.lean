/-
  The header of a block.

  The line that opens a block is squeezed before its header is looked for.

  * `Header.read?_squeeze`: a header is read from a squeezed text as from the text.
  * `Block.firstSuffix?_header?_joinWords`: so the header of a block is that of the
    line as it stands.
  * `Block.firstSuffix?_header?_append`: it is the one after the first opener.
-/
import MissionText.Proofs.Script.Grammar
import MissionText.Proofs.Text.Space

namespace MissionText

open Text

/-! ## Squeezed texts -/

/-- Squeezing keeps what a text starts with, up to its first white space. -/
theorem takeWhile_squeeze {p : Char → Bool} (hp : ∀ c, isSpace c = true → p c = false)
    (cs : List Char) : (squeeze cs).takeWhile p = cs.takeWhile p ∧
      (squeeze cs).dropWhile p = squeeze (cs.dropWhile p) := by
  induction cs with
  | nil => exact ⟨rfl, rfl⟩
  | cons c cs ih =>
    by_cases hc : isSpace c = true
    · have hpc : ¬ p c = true := by simp [hp c hc]
      have hspace : ¬ p ' ' = true := by simp [hp ' ' (by decide)]
      rw [List.dropWhile_cons_of_neg hpc, List.takeWhile_cons_of_neg hpc,
        squeeze_cons_of_isSpace hc]
      split_ifs
      · exact ⟨rfl, rfl⟩
      · exact ⟨List.takeWhile_cons_of_neg hspace, List.dropWhile_cons_of_neg hspace⟩
    · rw [squeeze_cons (by simpa using hc)]
      by_cases hpc : p c = true
      · rw [List.dropWhile_cons_of_pos hpc, List.dropWhile_cons_of_pos hpc,
          List.takeWhile_cons_of_pos hpc, List.takeWhile_cons_of_pos hpc, ih.1]
        exact ⟨rfl, ih.2⟩
      · rw [List.dropWhile_cons_of_neg hpc, List.dropWhile_cons_of_neg hpc,
          List.takeWhile_cons_of_neg hpc, List.takeWhile_cons_of_neg hpc,
          squeeze_cons (by simpa using hc)]
        exact ⟨rfl, rfl⟩

theorem startsOutside_joinWords (cs : List Char) : StartsOutside isSpace (joinWords ' ' cs) := by
  induction cs with
  | nil => simp [StartsOutside, joinWords, words_nil]
  | cons c cs ih =>
    by_cases hc : isSpace c = true
    · rw [joinWords_cons_of_isSpace hc]
      exact ih
    · have hc : isSpace c = false := by simpa using hc
      rw [joinWords_cons hc]
      exact startsOutside_cons.2 hc

theorem dropWhile_isSpace_squeeze (cs : List Char) :
    (squeeze cs).dropWhile isSpace = joinWords ' ' cs := by
  cases cs with
  | nil => rfl
  | cons c cs =>
    by_cases hc : isSpace c = true
    · rw [squeeze_cons_of_isSpace hc, joinWords_cons_of_isSpace hc]
      split_ifs with hwords
      · rw [joinWords, hwords]
        rfl
      · rw [List.dropWhile_cons_of_pos (by decide), (startsOutside_joinWords cs).dropWhile]
    · have hc : isSpace c = false := by simpa using hc
      rw [squeeze_cons hc, joinWords_cons hc, List.dropWhile_cons_of_neg (by simp [hc])]

/-- **A token is read from a squeezed text** as from the text. -/
theorem spacedToken?_squeeze (cs : List Char) :
    spacedToken? (squeeze cs) = (spacedToken? cs).map fun r => (r.1, squeeze r.2) := by
  unfold spacedToken?
  cases cs with
  | nil => rfl
  | cons c cs =>
    by_cases hc : isSpace c = true
    · have hskip : skipSpaces? (c :: cs) = some (cs.dropWhile isSpace) := by
        simp [skipSpaces?, hc, List.dropWhile_cons_of_pos]
      rw [hskip, squeeze_cons_of_isSpace hc]
      split_ifs with hwords
      · have hblank : cs.dropWhile isSpace = [] :=
          List.dropWhile_eq_nil_iff.2 (List.all_eq_true.1 (words_eq_nil_iff.1 hwords))
        simp [hblank, skipSpaces?]
      · have hskip' : skipSpaces? (' ' :: joinWords ' ' cs) =
            some (squeeze (cs.dropWhile isSpace)) := by
          have hspace : isSpace ' ' = true := by decide
          simp only [skipSpaces?, hspace, if_true]
          rw [List.dropWhile_cons_of_pos hspace, (startsOutside_joinWords cs).dropWhile,
            joinWords_eq_squeeze]
        obtain ⟨htake, hdrop⟩ := takeWhile_squeeze (fun _ => isTokenChar_eq_false)
          (cs.dropWhile isSpace)
        rw [hskip']
        simp only [Option.bind_eq_bind, Option.bind_some, htake, hdrop]
        split_ifs <;> rfl
    · have hc : isSpace c = false := by simpa using hc
      rw [squeeze_cons hc]
      simp [skipSpaces?, hc]

theorem skipMark?_squeeze (cs : List Char) :
    skipMark? (squeeze cs) = (skipMark? cs).map squeeze := by
  unfold skipMark?
  rw [dropWhile_isSpace_squeeze, joinWords_eq_squeeze]
  have hstart := startsOutside_dropWhile isSpace cs
  generalize cs.dropWhile isSpace = ds at hstart
  rcases ds with _ | ⟨c, _ | ⟨d, ds⟩⟩
  · rfl
  · rw [squeeze_cons (startsOutside_cons.1 hstart)]
    simp [squeeze]
  · rw [squeeze_cons (startsOutside_cons.1 hstart)]
    by_cases hd : isSpace d = true
    · have hne : d ≠ 'R' := by
        rintro rfl
        exact absurd hd (by decide)
      rw [squeeze_cons_of_isSpace hd]
      split_ifs
      · simp [hne]
      · simp [hne]
    · rw [squeeze_cons (by simpa using hd)]
      by_cases hmark : c = 'T' ∧ d = 'R'
      · obtain ⟨rfl, rfl⟩ := hmark
        rfl
      · split
        · simp_all
        · split
          · simp_all
          · rfl

/-- **A header is read from a squeezed text** as from the text. -/
theorem Header.read?_squeeze (cs : List Char) :
    Header.read? (squeeze cs) = (Header.read? cs).map fun r => (r.1, squeeze r.2) := by
  unfold Header.read?
  rw [skipMark?_squeeze]
  rcases skipMark? cs with _ | cs₁
  · rfl
  · simp only [Option.map_some, Option.bind_eq_bind, Option.bind_some]
    rw [spacedToken?_squeeze]
    rcases spacedToken? cs₁ with _ | ⟨package, cs₂⟩
    · rfl
    · simp only [Option.map_some, Option.bind_some]
      rw [spacedToken?_squeeze]
      rcases spacedToken? cs₂ with _ | ⟨container, cs₃⟩
      · rfl
      · simp only [Option.map_some, Option.bind_some]
        rw [spacedToken?_squeeze]
        rcases spacedToken? cs₃ with _ | ⟨key, cs₄⟩ <;> rfl

/-! ## Lines -/

namespace Block

theorem header?_eq_some_iff {cs : List Char} {h : Header} :
    header? cs = some h ↔ ∃ spelling rest, h.WrittenAs spelling ∧
      StartsOutside isTokenChar rest ∧ cs = '/' :: '*' :: (spelling ++ rest) := by
  unfold header?
  constructor
  · intro hread
    split at hread
    · obtain ⟨⟨h', rest⟩, hheader, rfl⟩ := Option.map_eq_some_iff.1 hread
      obtain ⟨spelling, hspelling, hrest, rfl⟩ := Header.read?_eq_some_iff.1 hheader
      exact ⟨spelling, rest, hspelling, hrest, rfl⟩
    · cases hread
  · rintro ⟨spelling, rest, hspelling, hrest, rfl⟩
    have hheader := Header.read?_eq_some_iff.2 ⟨spelling, hspelling, hrest, rfl⟩
    exact Option.map_eq_some_iff.2 ⟨(h, rest), hheader, rfl⟩

theorem header?_cons_of_ne {c : Char} (hc : c ≠ '/') (cs : List Char) :
    header? (c :: cs) = none := by
  unfold header?
  split
  · simp_all
  · rfl

theorem header?_cons_squeeze (c : Char) (cs : List Char) :
    header? (c :: squeeze cs) = header? (c :: cs) := by
  by_cases hc : c = '/'
  · subst hc
    rcases cs with _ | ⟨d, ds⟩
    · rfl
    · by_cases hd : isSpace d = true
      · have hne : d ≠ '*' := by
          rintro rfl
          exact absurd hd (by decide)
        rw [squeeze_cons_of_isSpace hd]
        split_ifs
        · simp [header?, hne]
        · simp [header?, hne]
      · rw [squeeze_cons (by simpa using hd)]
        by_cases hstar : d = '*'
        · subst hstar
          simp only [header?, Header.read?_squeeze, Option.map_map]
          rfl
        · simp [header?, hstar]
  · rw [header?_cons_of_ne hc, header?_cons_of_ne hc]

/-- **The header of a block is that of the line that opens it**, as it stands. -/
theorem firstSuffix?_header?_joinWords (line : List Char) :
    firstSuffix? header? (joinWords ' ' line) = firstSuffix? header? line := by
  induction line with
  | nil => rfl
  | cons c cs ih =>
    have hspace {d : Char} (hd : isSpace d = true) (ds : List Char) :
        firstSuffix? header? (d :: ds) = firstSuffix? header? ds := by
      refine firstSuffix?_cons_of_none (header?_cons_of_ne ?_ ds)
      rintro rfl
      exact absurd hd (by decide)
    by_cases hc : isSpace c = true
    · rw [joinWords_cons_of_isSpace hc, hspace hc, ih]
    · have hsqueeze : firstSuffix? header? (squeeze cs) = firstSuffix? header? cs := by
        rw [← ih]
        rcases cs with _ | ⟨d, ds⟩
        · rfl
        · by_cases hd : isSpace d = true
          · rw [squeeze_cons_of_isSpace hd, joinWords_cons_of_isSpace hd]
            split_ifs with hwords
            · rw [joinWords, hwords]
              rfl
            · exact hspace (by decide) _
          · have hd : isSpace d = false := by simpa using hd
            rw [squeeze_cons hd, joinWords_cons hd]
      rw [joinWords_cons (by simpa using hc)]
      rcases hread : header? (c :: cs) with _ | h
      · rw [firstSuffix?_cons_of_none hread, firstSuffix?_cons_of_none, hsqueeze]
        rw [header?_cons_squeeze, hread]
      · rw [firstSuffix?_of_some hread, firstSuffix?_of_some]
        rw [header?_cons_squeeze, hread]

/-- An opener that starts before a slash ends before it. -/
theorem hasOpener_of_append {xs cs blank rest : List Char} (hne : xs ≠ []) (hblank : IsBlank blank)
    (h : xs ++ '/' :: cs = '/' :: '*' :: (blank ++ 'T' :: 'R' :: rest)) : HasOpener xs := by
  rcases xs with _ | ⟨c, _ | ⟨d, ys⟩⟩
  · exact absurd rfl hne
  · simp at h
  · simp only [List.cons_append, List.cons.injEq] at h
    obtain ⟨rfl, rfl, h⟩ := h
    rcases List.append_eq_append_iff.1 h with ⟨zs, rfl, hzs⟩ | ⟨zs, rfl, hzs⟩
    · rcases zs with _ | ⟨z, zs⟩
      · simp at hzs
      · obtain ⟨rfl, -⟩ := List.cons.inj hzs
        exact absurd (hblank '/' (by simp)) (by decide)
    · rcases zs with _ | ⟨t, _ | ⟨r, zs⟩⟩
      · simp at hzs
      · simp at hzs
      · simp only [List.cons_append, List.cons.injEq] at hzs
        obtain ⟨rfl, rfl, -⟩ := hzs
        exact ⟨_, ⟨blank, hblank, rfl⟩, [], zs, by simp⟩

/-- **The header after an opener is read**, if there is no opener before it. -/
theorem firstSuffix?_header?_append {before spelling : List Char} {h : Header}
    (hbefore : ¬ HasOpener before) (hspelling : h.WrittenAs spelling) :
    firstSuffix? header? (before ++ '/' :: '*' :: spelling) = some h := by
  have hread : header? ('/' :: '*' :: spelling) = some h :=
    header?_eq_some_iff.2 ⟨spelling, [], hspelling, by simp [StartsOutside], by simp⟩
  rw [firstSuffix?_append, firstSuffix?_of_some hread]
  intro s hne hs
  by_contra hsome
  obtain ⟨h', hread'⟩ := Option.ne_none_iff_exists'.1 hsome
  obtain ⟨_, rest, ⟨-, -, -, blank, _, _, _, hblank, -, -, -, rfl⟩, -, heq⟩ :=
    header?_eq_some_iff.1 hread'
  simp only [List.append_assoc, List.cons_append] at heq
  obtain ⟨cs, hcs, hinfix⟩ := hasOpener_of_append hne hblank heq
  exact hbefore ⟨cs, hcs, hinfix.trans hs.isInfix⟩

end Block

end MissionText
