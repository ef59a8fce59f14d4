/-
  What the interchange files of languages bring into a catalog.

  * `readLanguages_cons`: the file of one language is merged if it is there and
    can be read, and the other languages follow.
  * `hasOnly_readLanguages`: the files bring the tag of source texts and those of
    languages, all plain names.
  * `readLanguages_of_ok`, `readLanguages_of_error`: what a directory gives whose
    files can all be read, or cannot.
-/
import MissionText.Proofs.Stringtable.RoundTrip
import MissionText.Workspace

namespace MissionText

theorem Language.isPlainName_tag (l : Language) : IsPlainName l.tag := by
  cases l <;> decide

theorem Xliff.Document.isPlainName_of_mem_writes {d : Xliff.Document} {a : Address × String}
    (h : a ∈ d.writes) : IsPlainName a.1.language := by
  have horiginal : IsPlainName originalTag := by decide
  obtain ⟨g, -, h⟩ := List.mem_flatMap.1 h
  obtain ⟨u, -, h⟩ := List.mem_flatMap.1 h
  obtain ⟨s, -, h⟩ := List.mem_flatMap.1 h
  rcases List.mem_cons.1 h with rfl | h
  · exact horiginal
  · rcases htarget : d.target with _ | l
    · rw [htarget] at h
      cases h
    · rw [htarget] at h
      rw [List.mem_singleton.1 h]
      exact l.isPlainName_tag

namespace Workspace

variable {w : Workspace} {p : Project} {t : FileTree}

theorem readLanguages_cons (w : Workspace) (t : FileTree) (l : Language) (ls : List Language)
    (p : Project) : w.readLanguages t (l :: ls) p =
      if t.isFile (w.interchangePath (some l)) then
        match (readDocument t (w.interchangePath (some l))).bind Xliff.Document.read with
        | .ok d =>
          let (p, report) := w.readLanguages t ls (d.mergeInto p)
          (p, { report with imported := l :: report.imported })
        | .error e =>
          let (p, report) := w.readLanguages t ls p
          (p, { report with failed := ⟨w.interchangePath (some l), e⟩ :: report.failed })
      else w.readLanguages t ls p := by
  rfl

/-- A property of catalogs that documents keep is one that files keep. -/
theorem readLanguages_induction {P : Project → Prop}
    (hmerge : ∀ (d : Xliff.Document) (p : Project), P p → P (d.mergeInto p))
    (ls : List Language) (h : P p) : P (w.readLanguages t ls p).1 := by
  induction ls generalizing p with
  | nil => exact h
  | cons l ls ih =>
    rw [readLanguages_cons]
    split_ifs
    · split
      · next d hd => exact ih (hmerge d p h)
      · exact ih h
    · exact ih h

/-- **Interchange files bring plain tags.** -/
theorem hasOnly_readLanguages (ls : List Language) (h : p.HasOnly (fun _ => True) IsPlainName) :
    (w.readLanguages t ls p).1.HasOnly (fun _ => True) IsPlainName := by
  refine readLanguages_induction (fun d p hp => ?_) ls h
  have hname : Project.HasOnly (fun _ => True) IsPlainName { p with name := d.projectName } := hp
  exact hname.setAll fun a ha => ⟨trivial, d.isPlainName_of_mem_writes ha⟩

theorem wellFormed_readLanguages (ls : List Language) (h : p.WellFormed) :
    (w.readLanguages t ls p).1.WellFormed :=
  readLanguages_induction (fun d _ hp => hp.mergeInto d) ls h

/-! ## Which files are merged -/

/-- The files of some languages are there. -/
def HasFiles (w : Workspace) (t : FileTree) (targets : List Language) : Prop :=
  ∀ l, t.isFile (w.interchangePath (some l)) = decide (l ∈ targets)

variable {targets : List Language}

/-- **Files that can be read are merged** in the order in which they are looked up. -/
theorem readLanguages_of_ok (hfiles : w.HasFiles t targets) {document : Language → Xliff.Document}
    (hread : ∀ l ∈ targets, (readDocument t (w.interchangePath (some l))).bind Xliff.Document.read =
      .ok (document l)) (ls : List Language) (p : Project) :
    w.readLanguages t ls p =
      ((ls.filter (· ∈ targets)).foldl (fun p l => (document l).mergeInto p) p,
        ⟨ls.filter (· ∈ targets), []⟩) := by
  induction ls generalizing p with
  | nil => rfl
  | cons l ls ih =>
    rw [readLanguages_cons, hfiles l]
    by_cases hl : l ∈ targets
    · have hkept : (l :: ls).filter (· ∈ targets) = l :: ls.filter (· ∈ targets) :=
        List.filter_cons_of_pos (decide_eq_true hl)
      rw [if_pos (decide_eq_true hl), hread l hl, hkept, List.foldl_cons]
      dsimp only
      rw [ih]
    · have hdropped : (l :: ls).filter (· ∈ targets) = ls.filter (· ∈ targets) :=
        List.filter_cons_of_neg (by simpa using hl)
      rw [if_neg (by simpa using hl), hdropped]
      exact ih p

/-- **Files that cannot be read change nothing** and are all listed. -/
theorem readLanguages_of_error (hfiles : w.HasFiles t targets) {e : Error}
    (hread : ∀ l ∈ targets, (readDocument t (w.interchangePath (some l))).bind Xliff.Document.read =
      .error e) (ls : List Language) (p : Project) :
    w.readLanguages t ls p =
      (p, ⟨[], (ls.filter (· ∈ targets)).map fun l => ⟨w.interchangePath (some l), e⟩⟩) := by
  induction ls with
  | nil => rfl
  | cons l ls ih =>
    rw [readLanguages_cons, hfiles l]
    by_cases hl : l ∈ targets
    · have hkept : (l :: ls).filter (· ∈ targets) = l :: ls.filter (· ∈ targets) :=
        List.filter_cons_of_pos (decide_eq_true hl)
      rw [if_pos (decide_eq_true hl), hread l hl, hkept, List.map_cons]
      dsimp only
      rw [ih]
    · have hdropped : (l :: ls).filter (· ∈ targets) = ls.filter (· ∈ targets) :=
        List.filter_cons_of_neg (by simpa using hl)
      rw [if_neg (by simpa using hl), hdropped]
      exact ih

end Workspace

end MissionText
