/-
  Exporting to the interchange directory, and importing from it again.

  * `node?_writeTargets`: what stands at the places of interchange files after
    some of them were written.
  * `readInterchange_writeInterchange`: an import after an export gives back every
    key that has a source text, with the texts in the languages of the export.
-/
import MissionText.Proofs.FileTree
import MissionText.Proofs.Workspace.Languages
import MissionText.Proofs.Xliff.Exchange

namespace MissionText

open FileTree (KeepsDirectories)
open FileTree.Change

/-! ## Paths -/

theorem FilePath.getLast?_join {name : String} (h : name ≠ "") (path : String) :
    (FilePath.join path name).toList.getLast? = name.toList.getLast? := by
  have hne : name.toList ≠ [] := fun hnil => h (String.toList_eq_nil_iff.1 hnil)
  unfold FilePath.join
  split_ifs
  · rw [String.toList_append, List.getLast?_append_of_ne_nil _ hne]
  · rw [String.toList_append, List.getLast?_append_of_ne_nil _ hne]

theorem Workspace.interchangeDir_ne_empty (w : Workspace) : w.interchangeDir ≠ "" := by
  intro h
  have hlast : w.interchangeDir.toList.getLast? = "l10n".toList.getLast? :=
    FilePath.getLast?_join (by decide) w.root
  rw [h] at hlast
  cases hlast

namespace Workspace

/-- The name of an interchange file. -/
def interchangeName : Option Language → String
  | some l => "strings_" ++ l.code ++ ".xlf"
  | none => "strings.xlf"

theorem interchangePath_eq (w : Workspace) (target : Option Language) :
    w.interchangePath target = FilePath.join w.interchangeDir (interchangeName target) := by
  cases target <;> rfl

theorem isFileName_interchangeName (target : Option Language) :
    FileTree.IsFileName (interchangeName target) := by
  rcases target with _ | l
  · decide
  · cases l <;> decide

theorem code_injective : Function.Injective Language.code := by
  have hcode (l : Language) : Language.ofCode? l.code = some l := by
    cases l <;> decide
  intro l m h
  have hsome := (hcode l).symm.trans (h ▸ hcode m)
  exact Option.some.inj hsome

theorem interchangeName_injective : Function.Injective interchangeName := by
  have hlength (l : Language) : (interchangeName (some l)).length ≠
      (interchangeName none).length := by
    cases l <;> decide
  intro target target' h
  rcases target with _ | l
  · rcases target' with _ | m
    · rfl
    · exact absurd (congrArg String.length h).symm (hlength m)
  · rcases target' with _ | m
    · exact absurd (congrArg String.length h) (hlength l)
    · have hcode : l.code = m.code := by
        simpa [interchangeName, String.append_left_inj, String.append_right_inj] using h
      rw [code_injective hcode]

/-! ## Writing -/

variable {w : Workspace} {t : FileTree} {dir : Location}

theorem locate_interchangePath (h : t.LeadsTo w.interchangeDir dir) (target : Option Language) :
    t.locate (w.interchangePath target) = .ok (dir ++ [interchangeName target]) := by
  rw [interchangePath_eq]
  exact FileTree.locate_join w.interchangeDir_ne_empty (isFileName_interchangeName target) h

theorem getLast?_interchangePath (w : Workspace) (target : Option Language) :
    (w.interchangePath target).toList.getLast? ≠ some '/' := by
  have hname : interchangeName target ≠ "" ∧
      (interchangeName target).toList.getLast? ≠ some '/' := by
    rcases target with _ | l
    · decide
    · cases l <;> decide
  rw [interchangePath_eq, FilePath.getLast?_join hname.1]
  exact hname.2

/-- The content of the interchange file of a target. -/
def exportedFile (p : Project) (source : Language) (version : Xliff.Version)
    (target : Option Language) : Bytes :=
  utf8 (Xliff.Document.ofProject p source target version).render

theorem writeTargets_cons (w : Workspace) (p : Project) (source : Language)
    (version : Xliff.Version) (target : Option Language) (targets : List (Option Language))
    (t : FileTree) : w.writeTargets p source version (target :: targets) t =
      match replaceFile (w.interchangePath target) (exportedFile p source version target) t with
      | .ok _ t =>
        let (t, report) := w.writeTargets p source version targets t
        (t, { report with written := w.interchangePath target :: report.written })
      | .error e t =>
        let (t, report) := w.writeTargets p source version targets t
        (t, { report with failed := ⟨w.interchangePath target, .io e⟩ :: report.failed }) := by
  rfl

/-- An interchange file is replaced, unless a directory is in its place. -/
theorem replaceFile_interchangePath (h : t.LeadsTo w.interchangeDir dir)
    {target : Option Language} (hnode : t.node? (dir ++ [interchangeName target]) ≠ some .directory)
    (content : Bytes) :
    ∃ t', replaceFile (w.interchangePath target) content t = .ok ⟨⟩ t' ∧
      t'.LeadsTo w.interchangeDir dir ∧ ∀ l, t'.node? l =
        if l = dir ++ [interchangeName target] then some (.file content) else t.node? l := by
  have hparent : t.node? (dir ++ [interchangeName target]).dropLast = some .directory := by
    rw [List.dropLast_concat]
    exact h.2
  obtain ⟨t', hreplace, hcurrent, hnodes⟩ := replaceFile_eq_ok (getLast?_interchangePath w target)
    (locate_interchangePath h target) hparent hnode content
  have hkeeps : KeepsDirectories t t' := by
    intro m hm
    rw [hnodes, if_neg, hm]
    rintro rfl
    exact hnode hm
  exact ⟨t', hreplace, h.of_keeps hkeeps hcurrent, hnodes⟩

variable (p : Project) (source : Language) (version : Xliff.Version)

/-- **What stands at the places of interchange files** after some of them were
    written: their documents, unless a directory was in the way. -/
theorem node?_writeTargets (h : t.LeadsTo w.interchangeDir dir) (targets : List (Option Language)) :
    (w.writeTargets p source version targets t).1.LeadsTo w.interchangeDir dir ∧
      ∀ target, (w.writeTargets p source version targets t).1.node?
          (dir ++ [interchangeName target]) =
        if target ∈ targets ∧ t.node? (dir ++ [interchangeName target]) ≠ some .directory then
          some (.file (exportedFile p source version target))
        else t.node? (dir ++ [interchangeName target]) := by
  induction targets generalizing t with
  | nil =>
    refine ⟨h, fun target => ?_⟩
    rw [if_neg fun hand => List.not_mem_nil hand.1]
    rfl
  | cons first targets ih =>
    rw [writeTargets_cons]
    by_cases hnode : t.node? (dir ++ [interchangeName first]) = some .directory
    · rw [replaceFile_directory (locate_interchangePath h first) hnode]
      obtain ⟨hleads, hplaces⟩ := ih h
      refine ⟨hleads, fun target => (hplaces target).trans ?_⟩
      by_cases htarget : target = first
      · subst htarget
        rw [if_neg fun hand => hand.2 hnode, if_neg fun hand => hand.2 hnode]
      · simp only [List.mem_cons, htarget, false_or]
    · obtain ⟨t₁, hreplace, hfirst, hnodes⟩ :=
        replaceFile_interchangePath h hnode (exportedFile p source version first)
      rw [hreplace]
      obtain ⟨hleads, hplaces⟩ := ih hfirst
      refine ⟨hleads, fun target => (hplaces target).trans ?_⟩
      by_cases htarget : target = first
      · subst htarget
        rw [hnodes, if_pos rfl, ite_self, if_pos ⟨List.mem_cons_self, hnode⟩]
      · have hother : dir ++ [interchangeName target] ≠ dir ++ [interchangeName first] := by
          intro heq
          have hname := List.append_cancel_left heq
          exact htarget (interchangeName_injective (List.cons.inj hname).1)
        rw [hnodes, if_neg hother]
        simp only [List.mem_cons, htarget, false_or]

/-- An export writes its files into the directory that it created. -/
theorem writeInterchange_eq_ok {t₁ : FileTree} (h : t.createDirs w.interchangeDir = .ok t₁)
    (targets : List Language) :
    w.writeInterchange p targets source version t =
      .ok (w.writeTargets p source version (none :: targets.map some) t₁).2
        (w.writeTargets p source version (none :: targets.map some) t₁).1 := by
  have hcreate : perform (·.createDirs w.interchangeDir) t = .ok ⟨⟩ t₁ := perform_eq_ok h
  rw [writeInterchange, bind_ok hcreate, get_bind]
  rfl

/-! ## Reading -/

/-- The language files after an export are those of its targets, if no other was
    there before it and no directory was in the way. -/
theorem hasFiles_writeTargets (h : t.LeadsTo w.interchangeDir dir) {targets : List Language}
    (hother : ∀ l ∉ targets, t.isFile (w.interchangePath (some l)) = false)
    (hfree : ∀ l ∈ targets, t.isDirectory (w.interchangePath (some l)) = false) :
    w.HasFiles (w.writeTargets p source version (none :: targets.map some) t).1 targets ∧
      ∀ l ∈ targets, readDocument (w.writeTargets p source version (none :: targets.map some) t).1
        (w.interchangePath (some l)) = .ok (exportedFile p source version (some l)) := by
  obtain ⟨hleads, hplaces⟩ := node?_writeTargets p source version h (none :: targets.map some)
  have hmem {l : Language} : some l ∈ none :: targets.map some ↔ l ∈ targets := by simp
  have hwritten : ∀ l ∈ targets,
      (w.writeTargets p source version (none :: targets.map some) t).1.node?
        (dir ++ [interchangeName (some l)]) =
          some (.file (exportedFile p source version (some l))) := by
    intro l hl
    refine (hplaces (some l)).trans (if_pos ⟨hmem.2 hl, fun hnode => ?_⟩)
    have hdirectory := (FileTree.isDirectory_iff (locate_interchangePath h (some l))).2 hnode
    rw [hfree l hl] at hdirectory
    cases hdirectory
  refine ⟨fun l => ?_, fun l hl => ?_⟩
  · rw [Bool.eq_iff_iff, FileTree.isFile_iff (locate_interchangePath hleads (some l)),
      decide_eq_true_iff]
    by_cases hl : l ∈ targets
    · exact iff_of_true ⟨_, hwritten l hl⟩ hl
    · refine iff_of_false ?_ hl
      rw [hplaces, if_neg fun hand => hl (hmem.1 hand.1),
        ← FileTree.isFile_iff (locate_interchangePath h (some l)), hother l hl]
      exact Bool.false_ne_true
  · have hopen : (w.writeTargets p source version (none :: targets.map some) t).1.openFile
        (w.interchangePath (some l)) = .ok (.file (exportedFile p source version (some l))) := by
      rw [FileTree.openFile, locate_interchangePath hleads (some l)]
      simp only [bind, Except.bind, hwritten l hl]
      rfl
    rw [readDocument, hopen]

/-- **An import after an export loses and invents nothing.**  A catalog whose names
    stay distinct as ids is exported for some languages, into a directory that can
    be created, where no directory is in the way of a file and where no other
    language has a file.  Then an import finds these languages, and gives every
    key that has a source text with it and with its texts in these languages; if
    there is no such key, all files are rejected. -/
theorem readInterchange_writeInterchange (h : p.Reachable)
    (hd : DistinctUnder Xliff.idOfName p.packages) {targets : List Language} (hne : targets ≠ [])
    {t₁ : FileTree}
    (hcurrent : t.node? t.current = some .directory)
    (hcreate : t.createDirs w.interchangeDir = .ok t₁)
    (hother : ∀ l ∉ targets, t₁.isFile (w.interchangePath (some l)) = false)
    (hfree : ∀ l ∈ targets, t₁.isDirectory (w.interchangePath (some l)) = false) :
    ∃ report t₂, w.writeInterchange p targets source version t = .ok report t₂ ∧
      w.readInterchange t₂ .default = .ok
        (if p.isExportable then
          (p.exchanged (Language.all.filter (· ∈ targets)),
            ⟨Language.all.filter (· ∈ targets), []⟩)
        else (.default, ⟨[], (Language.all.filter (· ∈ targets)).map fun l =>
          ⟨w.interchangePath (some l), .malformed .noGroups⟩⟩)) := by
  obtain ⟨-, -, dir, hleads⟩ := FileTree.leadsTo_createDirs hcreate hcurrent
  obtain ⟨hfiles, hread⟩ := hasFiles_writeTargets p source version hleads hother hfree
  refine ⟨_, _, writeInterchange_eq_ok p source version hcreate targets, ?_⟩
  have hdirectory : (w.writeTargets p source version (none :: targets.map some) t₁).1.isDirectory
      w.interchangeDir = true :=
    (node?_writeTargets p source version hleads _).1.isDirectory
      (String.isEmpty_eq_false_iff.2 w.interchangeDir_ne_empty)
  rw [readInterchange, if_pos hdirectory]
  by_cases hexport : p.isExportable = true
  · have hdocuments : ∀ l ∈ targets, (readDocument
        (w.writeTargets p source version (none :: targets.map some) t₁).1
        (w.interchangePath (some l))).bind Xliff.Document.read =
          .ok (Xliff.Document.ofProject p source (some l) version).filled := by
      intro l hl
      rw [hread l hl]
      exact (read_render_ofProject source version p l).trans (if_pos hexport)
    have hfound : Language.all.filter (· ∈ targets) ≠ [] := by
      obtain ⟨l, hl⟩ := List.exists_mem_of_ne_nil targets hne
      exact List.ne_nil_of_mem (List.mem_filter.2 ⟨l.mem_all, decide_eq_true hl⟩)
    have hnodup : (Language.all.filter (· ∈ targets)).Nodup := by
      have hall : Language.all.Nodup := by decide
      exact hall.filter _
    rw [readLanguages_of_ok hfiles hdocuments,
      foldl_mergeInto_ofProject source version h.wellFormed hd hfound hnodup, if_pos hexport]
  · have hrejected : ∀ l ∈ targets, (readDocument
        (w.writeTargets p source version (none :: targets.map some) t₁).1
        (w.interchangePath (some l))).bind Xliff.Document.read =
          .error (.malformed .noGroups) := by
      intro l hl
      rw [hread l hl]
      exact (read_render_ofProject source version p l).trans (if_neg hexport)
    rw [readLanguages_of_error hfiles hrejected, if_neg hexport]

/-- A catalog with spaces in its names, a key without a source text, and a language
    that is not exported. -/
def spacedProject : Project :=
  ⟨"My  Mission", [⟨"Side  tasks", [⟨" a b ", [
    ⟨"k 1", [⟨"German", "<Hallo>"⟩, ⟨"Original", " Hello\n"⟩, ⟨"Polish", "Dzień"⟩]⟩,
    ⟨"k 2", [⟨"German", "Nein"⟩]⟩, ⟨"k 3", [⟨"Original", "Bye"⟩]⟩]⟩]⟩]⟩

theorem readInterchange_writeInterchange_spaced :
    ∃ report t₂, writeInterchange ⟨"m"⟩ spacedProject [.german, .english, .german] .english .v1_2
        ⟨[], []⟩ = .ok report t₂ ∧
      readInterchange ⟨"m"⟩ t₂ .default = .ok
        (⟨"My Mission", [⟨"Side_tasks", [⟨"a_b", [
            ⟨"k_1", [⟨"Original", " Hello\n"⟩, ⟨"German", "<Hallo>"⟩]⟩,
            ⟨"k_3", [⟨"Original", "Bye"⟩]⟩]⟩]⟩]⟩, ⟨[.english, .german], []⟩) := by
  have hwrites : (Project.new "My  Mission").setAll spacedProject.writes = spacedProject := by
    decide +kernel
  have hreachable : spacedProject.Reachable := by
    rw [← hwrites]
    exact (Project.Reachable.new _).setAll _
  have hdistinct : DistinctUnder Xliff.idOfName spacedProject.packages := by
    unfold DistinctUnder Package.DistinctUnder Container.DistinctUnder Siblings.DistinctNames
    decide +kernel
  have hcreate : FileTree.createDirs ⟨[], []⟩ (interchangeDir ⟨"m"⟩) =
      .ok ⟨[], [(["m"], .directory), (["m", "l10n"], .directory)]⟩ := by
    decide
  obtain ⟨report, t₂, hwrite, hread⟩ := readInterchange_writeInterchange spacedProject .english .v1_2
    hreachable hdistinct (List.cons_ne_nil Language.german [.english, .german]) rfl hcreate
    (fun l _ => by cases l <;> rfl) (fun l _ => by cases l <;> rfl)
  refine ⟨report, t₂, hwrite, hread.trans (congrArg Except.ok ?_)⟩
  decide +kernel

end Workspace

end MissionText
