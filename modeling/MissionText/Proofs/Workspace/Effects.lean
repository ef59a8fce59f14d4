/-
  What writing in a workspace leaves behind.

  * `writeStringtable_cases`: a stringtable that cannot be written leaves
    everything as it was; one that is written changes its own file and, if a
    backup is asked for and there is something to keep, the backup.
  * `writeInterchange_cases`: an export that writes no file leaves everything as it
    was; any other changes the interchange directory and the files of its targets.
    A directory that is only just created has nothing in it that could be in the
    way of a file (`FileTree.IsTree`).
-/
import MissionText.Proofs.Workspace.Interchange

namespace MissionText

open FileTree (KeepsDirectories IsFileName)
open FileTree.Change

/-! ## Trees -/

namespace FileTree

/-- Every file and directory stands in a directory. -/
def IsTree (t : FileTree) : Prop := ∀ e ∈ t.entries, t.node? e.1.dropLast = some .directory

instance (t : FileTree) : Decidable t.IsTree :=
  List.decidableBAll (fun e : Location × FileNode => t.node? e.1.dropLast = some .directory)
    t.entries

theorem exists_mem_entries {t : FileTree} {l : Location} {node : FileNode}
    (h : t.node? l = some node) (hl : l ≠ []) : (l, node) ∈ t.entries := by
  rw [node?, if_neg (by simpa using hl), Option.map_eq_some_iff] at h
  obtain ⟨⟨l', node'⟩, hfind, rfl⟩ := h
  obtain rfl : l' = l := by simpa using List.find?_some hfind
  exact List.mem_of_find?_eq_some hfind

/-- What there is stands in a directory. -/
theorem IsTree.node?_parent {t : FileTree} (h : t.IsTree) {l : Location} {name : String}
    {node : FileNode} (hnode : t.node? (l ++ [name]) = some node) :
    t.node? l = some .directory := by
  have hparent := h _ (exists_mem_entries hnode (by simp))
  rwa [List.dropLast_concat] at hparent

/-- Nothing stands below a place that is empty. -/
theorem IsTree.node?_eq_none {t : FileTree} (h : t.IsTree) {l : Location} (hl : t.node? l = none)
    (name : String) : t.node? (l ++ [name]) = none := by
  rcases hnode : t.node? (l ++ [name]) with _ | node
  · rfl
  · rw [h.node?_parent hnode] at hl
    cases hl

end FileTree

namespace Workspace

variable {w : Workspace} {t : FileTree} {dir : Location}

/-! ## Backups -/

/-- The name of the backup made at a time, which is in seconds. -/
def backupName (seconds : Nat) : String := "stringtable_" ++ toString seconds ++ ".xml.bak"

theorem toList_backupName (seconds : Nat) : (backupName seconds).toList =
    "stringtable_".toList ++ Nat.toDigits 10 seconds ++ ".xml.bak".toList := by
  have hdigits : (toString seconds).toList = Nat.toDigits 10 seconds := String.toList_ofList
  rw [backupName, String.toList_append, String.toList_append, hdigits]

theorem isFileName_backupName (seconds : Nat) : IsFileName (backupName seconds) where
  noSlash := by
    rw [toList_backupName, List.mem_append, List.mem_append, not_or, not_or]
    refine ⟨⟨by decide, fun hmem => ?_⟩, by decide⟩
    exact absurd (Nat.isDigit_of_mem_toDigits (by decide) (by decide) hmem) (by decide)
  notIdle := by
    rw [toList_backupName]
    rfl
  notUp := by
    intro h
    have htoList := toList_backupName seconds
    rw [h] at htoList
    cases htoList

theorem backupName_ne (seconds : Nat) : backupName seconds ≠ "stringtable.xml" := by
  intro h
  have htoList := toList_backupName seconds
  rw [h] at htoList
  cases htoList

/-! ## Stringtables -/

/-- A stringtable is written below a location, and the one before it is kept as a
    backup if that is asked for and there is one. -/
def WritesStringtable (dir : Location) (p : Project) (backup : Bool) (seconds : Nat)
    (t t' : FileTree) : Prop :=
  ∀ l, t'.node? l =
    if l = dir ++ ["stringtable.xml"] then some (.file (utf8 (Stringtable.render p)))
    else if l = dir ++ [backupName seconds] ∧ backup = true ∧
        (t.node? (dir ++ ["stringtable.xml"])).isSome = true then
      t.node? (dir ++ ["stringtable.xml"])
    else t.node? l

theorem pathExists_iff {path : String} {l : Location} (h : t.locate path = .ok l) :
    t.pathExists path = (t.node? l).isSome := by
  rw [FileTree.pathExists, FileTree.lookup?, h]

section Stringtable

variable (hroot : w.root ≠ "") (h : t.LeadsTo w.root dir)
include hroot h

theorem locate_stringtablePath : t.locate w.stringtablePath = .ok (dir ++ ["stringtable.xml"]) :=
  FileTree.locate_join hroot (by decide) h

theorem locate_backupPath (seconds : Nat) :
    t.locate (w.backupPath seconds) = .ok (dir ++ [backupName seconds]) :=
  FileTree.locate_join hroot (isFileName_backupName seconds) h

/-- **A stringtable is replaced**, unless a directory is in its place. -/
theorem replaceFile_stringtable (hnode : t.node? (dir ++ ["stringtable.xml"]) ≠ some .directory)
    (content : Bytes) :
    ∃ t', replaceFile w.stringtablePath content t = .ok ⟨⟩ t' ∧
      ∀ l, t'.node? l =
        if l = dir ++ ["stringtable.xml"] then some (.file content) else t.node? l := by
  have hparent : t.node? (dir ++ ["stringtable.xml"]).dropLast = some .directory := by
    rw [List.dropLast_concat]
    exact h.2
  have hslash : w.stringtablePath.toList.getLast? ≠ some '/' := by
    rw [stringtablePath, FilePath.getLast?_join (by decide)]
    decide
  obtain ⟨t', hreplace, -, hnodes⟩ :=
    replaceFile_eq_ok hslash (locate_stringtablePath hroot h) hparent hnode content
  exact ⟨t', hreplace, hnodes⟩

/-- **A stringtable that is there is copied** to its backup, unless a directory is in
    the place of either. -/
theorem copyFile_stringtable (hsome : (t.node? (dir ++ ["stringtable.xml"])).isSome = true)
    (seconds : Nat) :
    (∃ e, t.copyFile w.stringtablePath (w.backupPath seconds) = .error e) ∨
      ∃ content, t.node? (dir ++ ["stringtable.xml"]) = some (.file content) ∧
        t.node? (dir ++ [backupName seconds]) ≠ some .directory ∧
        t.copyFile w.stringtablePath (w.backupPath seconds) =
          .ok (t.put (dir ++ [backupName seconds]) (.file content)) := by
  have hlocate := locate_stringtablePath hroot h
  obtain ⟨node, hnode⟩ := Option.isSome_iff_exists.1 hsome
  cases node with
  | directory =>
    left
    refine ⟨.notRegular, ?_⟩
    rw [FileTree.copyFile, FileTree.openFile, hlocate]
    simp only [bind, Except.bind, hnode]
    rfl
  | file content =>
    have hcopy : t.copyFile w.stringtablePath (w.backupPath seconds) =
        t.writeFile (w.backupPath seconds) content := by
      rw [FileTree.copyFile, FileTree.openFile, hlocate]
      simp only [bind, Except.bind, hnode]
      rfl
    rw [hcopy]
    rcases hwrite : t.writeFile (w.backupPath seconds) content with e | t₁
    · exact .inl ⟨e, rfl⟩
    · obtain ⟨-, l, hl, hother, -, rfl⟩ := FileTree.writeFile_eq_ok.1 hwrite
      obtain rfl := Except.ok.inj ((locate_backupPath hroot h seconds).symm.trans hl)
      exact .inr ⟨content, hnode, hother, rfl⟩

/-- **Writing the stringtable** changes nothing or does what it should. -/
theorem writeStringtable_cases (p : Project) (backup : Bool) (seconds : Nat) :
    (∃ e, w.writeStringtable p backup seconds t = .error e t) ∨
      ∃ made t', w.writeStringtable p backup seconds t = .ok made t' ∧
        WritesStringtable dir p backup seconds t t' := by
  have hexists := pathExists_iff (locate_stringtablePath hroot h)
  by_cases hbackup : (backup && (t.node? (dir ++ ["stringtable.xml"])).isSome) = true
  · have hwrite : w.writeStringtable p backup seconds t =
        (perform (·.copyFile w.stringtablePath (w.backupPath seconds)) >>= fun _ =>
          replaceFile w.stringtablePath (utf8 (Stringtable.render p)) >>= fun _ =>
            pure true) t := by
      rw [writeStringtable, get_bind, hexists, hbackup]
      rfl
    rw [hwrite]
    obtain ⟨rfl, hsome⟩ := Bool.and_eq_true_iff.1 hbackup
    rcases copyFile_stringtable hroot h hsome seconds with
      ⟨e, herror⟩ | ⟨content, hnode, hother, hcopy⟩
    · exact .inl ⟨e, bind_error (perform_eq_error herror) _⟩
    · have hnodes := FileTree.node?_put t (FileTree.ne_nil_of_node? hother) (.file content)
      have hleads := h.of_keeps (FileTree.keepsDirectories_put hother (.file content)) rfl
      have hdistinct : dir ++ ["stringtable.xml"] ≠ dir ++ [backupName seconds] := by
        simpa using (backupName_ne seconds).symm
      -- The file that has just been copied is no directory, so it is replaced.
      obtain ⟨t', hreplace, hnodes'⟩ := replaceFile_stringtable hroot hleads
        (by rw [hnodes, if_neg hdistinct, hnode]; simp) (utf8 (Stringtable.render p))
      refine .inr ⟨true, t', ?_, fun l => ?_⟩
      · rw [bind_ok (perform_eq_ok hcopy), bind_ok hreplace]
        rfl
      · rw [hnodes', hnodes, hnode]
        simp
  · have hwrite : w.writeStringtable p backup seconds t =
        (replaceFile w.stringtablePath (utf8 (Stringtable.render p)) >>= fun _ =>
          pure false) t := by
      rw [writeStringtable, get_bind, hexists, Bool.eq_false_iff.2 hbackup]
      rfl
    rw [hwrite]
    by_cases hnode : t.node? (dir ++ ["stringtable.xml"]) = some .directory
    · have herror := replaceFile_directory (locate_stringtablePath hroot h) hnode
        (utf8 (Stringtable.render p))
      exact .inl ⟨_, bind_error herror _⟩
    · obtain ⟨t', hreplace, hnodes⟩ :=
        replaceFile_stringtable hroot h hnode (utf8 (Stringtable.render p))
      refine .inr ⟨false, t', bind_ok hreplace _, fun l => ?_⟩
      rw [hnodes]
      refine if_congr Iff.rfl rfl (if_neg ?_).symm
      rintro ⟨-, rfl, hsome⟩
      exact hbackup hsome

end Stringtable

/-! ## Interchange files -/

/-- Nothing changes but for the interchange directory and the files of some targets
    in it. -/
def WritesInterchange (dir : Location) (targets : List (Option Language)) (t t' : FileTree) :
    Prop :=
  ∀ l, l ≠ dir ++ ["l10n"] → (∀ target ∈ targets, l ≠ dir ++ ["l10n", interchangeName target]) →
    t'.node? l = t.node? l

variable (p : Project) (source : Language) (version : Xliff.Version)

/-- **Interchange files are written** to their places and nowhere else, and where
    none is written, nothing changes. -/
theorem writeTargets_frame (h : t.LeadsTo w.interchangeDir dir) (targets : List (Option Language)) :
    (∀ l, (∀ target ∈ targets, l ≠ dir ++ [interchangeName target]) →
        (w.writeTargets p source version targets t).1.node? l = t.node? l) ∧
      ((w.writeTargets p source version targets t).2.written = [] →
        (w.writeTargets p source version targets t).1 = t) := by
  induction targets generalizing t with
  | nil => exact ⟨fun _ _ => rfl, fun _ => rfl⟩
  | cons first targets ih =>
    rw [writeTargets_cons]
    by_cases hnode : t.node? (dir ++ [interchangeName first]) = some .directory
    · rw [replaceFile_directory (locate_interchangePath h first) hnode]
      obtain ⟨hframe, hnone⟩ := ih h
      exact ⟨fun l hl => hframe l (List.forall_mem_cons.1 hl).2, hnone⟩
    · obtain ⟨t₁, hreplace, hfirst, hnodes⟩ :=
        replaceFile_interchangePath h hnode (exportedFile p source version first)
      rw [hreplace]
      obtain ⟨hframe, -⟩ := ih hfirst
      refine ⟨fun l hl => ?_, fun hnil => ?_⟩
      · obtain ⟨hother, hl⟩ := List.forall_mem_cons.1 hl
        exact (hframe l hl).trans ((hnodes l).trans (if_neg hother))
      · cases hnil

/-- A file is written if no directory is in its place. -/
theorem written_writeTargets_ne_nil (h : t.LeadsTo w.interchangeDir dir) {target : Option Language}
    (hnode : t.node? (dir ++ [interchangeName target]) ≠ some .directory)
    (targets : List (Option Language)) :
    (w.writeTargets p source version (target :: targets) t).2.written ≠ [] := by
  obtain ⟨t₁, hreplace, -⟩ :=
    replaceFile_interchangePath h hnode (exportedFile p source version target)
  rw [writeTargets_cons, hreplace]
  exact List.cons_ne_nil _ _

/-- **An export** that writes no file changes nothing; any other changes what it
    should. -/
theorem writeInterchange_cases (hroot : w.root ≠ "") (h : t.LeadsTo w.root dir) (ht : t.IsTree)
    (targets : List Language) :
    (∃ e, w.writeInterchange p targets source version t = .error e t) ∨
      ∃ report t', w.writeInterchange p targets source version t = .ok report t' ∧
        (report.written = [] → t' = t) ∧
        WritesInterchange dir (none :: targets.map some) t t' := by
  have hname : IsFileName "l10n" := by decide
  have hcreate := FileTree.createDirs_join hroot hname h
  have hframe {t₁ : FileTree} (hleads : t₁.LeadsTo w.interchangeDir (dir ++ ["l10n"]))
      (hsame : ∀ l, l ≠ dir ++ ["l10n"] → t₁.node? l = t.node? l) :
      WritesInterchange dir (none :: targets.map some) t
        (w.writeTargets p source version (none :: targets.map some) t₁).1 := by
    intro l hdir htargets
    rw [(writeTargets_frame p source version hleads _).1 l, hsame l hdir]
    intro target htarget
    rw [List.append_assoc]
    exact htargets target htarget
  rcases hnode : t.node? (dir ++ ["l10n"]) with _ | (content | _)
  · rw [hnode] at hcreate
    have hnot : t.node? (dir ++ ["l10n"]) ≠ some .directory := by simp [hnode]
    have hnodes := FileTree.node?_put t (FileTree.ne_nil_of_node? hnot) .directory
    have hleads : (t.put (dir ++ ["l10n"]) .directory).LeadsTo w.interchangeDir (dir ++ ["l10n"]) :=
      FileTree.leadsTo_join hroot hname
        (h.of_keeps (FileTree.keepsDirectories_put hnot .directory) rfl)
        (by rw [hnodes, if_pos rfl])
    have hfree : (t.put (dir ++ ["l10n"]) .directory).node?
        (dir ++ ["l10n"] ++ [interchangeName none]) ≠ some .directory := by
      rw [hnodes, if_neg (by simp), ht.node?_eq_none hnode]
      simp
    refine .inr ⟨_, _, writeInterchange_eq_ok p source version hcreate targets, fun hnil => ?_,
      hframe hleads fun l hl => by rw [hnodes, if_neg hl]⟩
    exact absurd hnil (written_writeTargets_ne_nil p source version hleads hfree _)
  · rw [hnode] at hcreate
    have hcreate' : perform (·.createDirs w.interchangeDir) t = .error .alreadyExists t :=
      perform_eq_error hcreate
    refine .inl ⟨.alreadyExists, ?_⟩
    rw [writeInterchange, bind_error hcreate']
  · rw [hnode] at hcreate
    have hleads : t.LeadsTo w.interchangeDir (dir ++ ["l10n"]) :=
      FileTree.leadsTo_join hroot hname h hnode
    exact .inr ⟨_, _, writeInterchange_eq_ok p source version hcreate targets,
      (writeTargets_frame p source version hleads _).2, hframe hleads fun _ _ => rfl⟩

end Workspace

end MissionText
