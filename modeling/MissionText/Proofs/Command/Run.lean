/-
  What a run leaves behind.

  * `Command.HasEffect` says of each command what it changes if it succeeds: the
    stringtable and its backup, the interchange directory and the files of the
    targets, or the file that is named.  `HasEffect.node?_backup`: a backup that is
    asked for has the old stringtable in it.
  * `CommandResult.IsAllOrNothing`: a failure leaves every file as it was.  This
    holds of each command, and so of every run (`run_allOrNothing`).
-/
import MissionText.Proofs.Settings
import MissionText.Proofs.Workspace.Effects
import MissionText.Proofs.Workspace.Written

namespace MissionText

/-! ## Effects -/

/-- What a command that succeeds in a directory changes. -/
def Command.HasEffect (w : Workspace) (settings : Settings) (seconds : Nat) (dir : Location)
    (t t' : FileTree) : Command → Prop
  | .extract backup =>
    if (w.extracted settings t).keys = [] then t' = t
    else Workspace.WritesStringtable dir (w.extracted settings t) (settings.keepsBackup backup)
      seconds t t'
  | .exportFiles options =>
    ∃ targets, targetsOf options.sourceOnly options.languages = .ok targets ∧
      Workspace.WritesInterchange dir (none :: targets.map some) t t'
  | .importFiles backup =>
    ∃ p, w.imported? settings t = some p ∧
      Workspace.WritesStringtable dir p (settings.keepsBackup backup) seconds t t'
  | .dump none => t' = t
  | .dump (some path) =>
    ∃ l p, t.locate path = .ok l ∧ w.readStringtable t = .ok p ∧
      ∀ m, t'.node? m = if m = l then some (.file (utf8 p.json)) else t.node? m

/-- **The old stringtable is kept** as it is, if a backup of it is asked for. -/
theorem Command.HasEffect.node?_backup {w : Workspace} {settings : Settings} {seconds : Nat}
    {dir : Location} {t t' : FileTree} {backup : Bool}
    (h : (Command.extract backup).HasEffect w settings seconds dir t t')
    (hkeys : (w.extracted settings t).keys ≠ []) (hbackup : settings.keepsBackup backup = true)
    (hold : (t.node? (dir ++ ["stringtable.xml"])).isSome = true) :
    t'.node? (dir ++ [Workspace.backupName seconds]) = t.node? (dir ++ ["stringtable.xml"]) := by
  have hname : dir ++ [Workspace.backupName seconds] ≠ dir ++ ["stringtable.xml"] := by
    simpa using Workspace.backupName_ne seconds
  rw [HasEffect, if_neg hkeys] at h
  rw [h, if_neg hname, if_pos ⟨rfl, hbackup, hold⟩]

/-- A failure leaves the files as they were, and a success has an effect. -/
def CommandResult.IsAllOrNothing (r : CommandResult) (t : FileTree) (effect : FileTree → Prop) :
    Prop :=
  r.failure? ≠ none ∧ r.files = t ∨ r.failure? = none ∧ effect r.files

theorem CommandResult.isAllOrNothing_fail (e : CommandError) (t : FileTree)
    (effect : FileTree → Prop) : (fail e t).IsAllOrNothing t effect :=
  .inl ⟨Option.some_ne_none e, rfl⟩

/-! ## Commands -/

section Commands

variable {w : Workspace} {t : FileTree} {dir : Location} (settings : Settings) (seconds : Nat)
  (quiet : Bool)

theorem isAllOrNothing_runDump (output : Option String) :
    (runDump w output t).IsAllOrNothing t
      fun t' => (Command.dump output).HasEffect w settings seconds dir t t' := by
  unfold runDump
  rcases hread : w.readStringtable t with e | p
  · exact CommandResult.isAllOrNothing_fail _ _ _
  · cases output with
    | none => exact .inr ⟨rfl, rfl⟩
    | some path =>
      dsimp only
      rcases hwrite : t.writeFile path (utf8 p.json) with e | t'
      · exact CommandResult.isAllOrNothing_fail _ _ _
      · obtain ⟨-, l, hl, hnode, -, rfl⟩ := FileTree.writeFile_eq_ok.1 hwrite
        exact .inr ⟨rfl, l, p, hl, hread, FileTree.node?_put t (FileTree.ne_nil_of_node? hnode) _⟩

variable (hroot : w.root ≠ "") (h : t.LeadsTo w.root dir)
include hroot h

theorem isAllOrNothing_runExtract (backup : Bool) :
    (runExtract w settings backup quiet seconds t).IsAllOrNothing t
      fun t' => (Command.extract backup).HasEffect w settings seconds dir t t' := by
  obtain ⟨stdout, hrun⟩ := Workspace.exists_runExtract_eq w settings backup quiet seconds t
  have hempty := (w.extracted_wellFormed settings t).1.isEmpty_iff
  rw [hrun]
  unfold Command.HasEffect
  simp only [hempty]
  split_ifs
  · exact .inr ⟨rfl, rfl⟩
  · rcases Workspace.writeStringtable_cases hroot h (w.extracted settings t)
      (settings.keepsBackup backup) seconds with ⟨e, herror⟩ | ⟨made, t', hwrite, heffect⟩
    · rw [herror]
      exact CommandResult.isAllOrNothing_fail _ _ _
    · rw [hwrite]
      exact .inr ⟨rfl, heffect⟩

theorem isAllOrNothing_runImport (backup : Bool) :
    (runImport w settings backup quiet seconds t).IsAllOrNothing t
      fun t' => (Command.importFiles backup).HasEffect w settings seconds dir t t' := by
  rcases hp : w.imported? settings t with _ | p
  · have hread : ∃ e, w.readInterchange t (.new (settings.nameOfProject none)) = .error e := by
      rcases hread : w.readInterchange t (.new (settings.nameOfProject none)) with e | r
      · exact ⟨e, rfl⟩
      · rw [Workspace.imported?, hread] at hp
        cases hp
    obtain ⟨e, hread⟩ := hread
    unfold runImport
    rw [hread]
    exact CommandResult.isAllOrNothing_fail _ _ _
  · obtain ⟨stdout, stderr, hrun⟩ := Workspace.exists_runImport_eq hp
    rw [hrun]
    split_ifs
    · exact .inl ⟨Option.some_ne_none _, rfl⟩
    · rcases Workspace.writeStringtable_cases hroot h p (settings.keepsBackup backup) seconds with
        ⟨e, herror⟩ | ⟨made, t', hwrite, heffect⟩
      · rw [herror]
        exact .inl ⟨Option.some_ne_none _, rfl⟩
      · rw [hwrite]
        exact .inr ⟨rfl, p, hp, heffect⟩

omit hroot h in
theorem targetsOf_of_exportPlan {options : ExportOptions} {version : Xliff.Version}
    {targets : List Language} {p : Project}
    (hplan : exportPlan w settings options t = .ok (version, targets, p)) :
    targetsOf options.sourceOnly options.languages = .ok targets := by
  unfold exportPlan at hplan
  rcases hversion : settings.version options.version with e | v
  · rw [hversion] at hplan
    cases hplan
  · rcases htargets : targetsOf options.sourceOnly options.languages with e | ls
    · rw [hversion, htargets] at hplan
      cases hplan
    · rcases hread : w.readStringtable t with e | q
      · rw [hversion, htargets, hread] at hplan
        cases hplan
      · rw [hversion, htargets, hread] at hplan
        cases hplan
        rfl

theorem isAllOrNothing_runExport (ht : t.IsTree) (options : ExportOptions) :
    (runExport w settings options quiet t).IsAllOrNothing t
      fun t' => (Command.exportFiles options).HasEffect w settings seconds dir t t' := by
  unfold runExport
  rcases hplan : exportPlan w settings options t with e | ⟨version, targets, p⟩
  · exact CommandResult.isAllOrNothing_fail _ _ _
  · dsimp only
    rcases w.writeInterchange_cases p (settings.source options.source) version hroot h ht
      targets with ⟨e, herror⟩ | ⟨report, t', hwrite, hnone, heffect⟩
    · rw [herror]
      exact CommandResult.isAllOrNothing_fail _ _ _
    · rw [hwrite]
      by_cases hwritten : report.written = []
      · exact .inl ⟨by simp [hwritten], hnone hwritten⟩
      · exact .inr ⟨by simp [hwritten], targets, targetsOf_of_exportPlan settings hplan, heffect⟩

theorem isAllOrNothing_runCommand (ht : t.IsTree) (a : Arguments) :
    (runCommand w settings a seconds t).IsAllOrNothing t
      fun t' => a.command.HasEffect w settings seconds dir t t' := by
  unfold runCommand
  cases a.command with
  | extract backup => exact isAllOrNothing_runExtract settings seconds a.quiet hroot h backup
  | exportFiles options =>
    exact isAllOrNothing_runExport settings seconds a.quiet hroot h ht options
  | importFiles backup => exact isAllOrNothing_runImport settings seconds a.quiet hroot h backup
  | dump output => exact isAllOrNothing_runDump settings seconds output

end Commands

/-! ## Runs -/

/-- The exit code of a result says whether it is a failure. -/
theorem CommandResult.IsAllOrNothing.finish {r : CommandResult} {t : FileTree}
    {effect : FileTree → Prop} (h : r.IsAllOrNothing t effect) :
    r.finish.1.exit ≠ 0 ∧ r.finish.2 = t ∨ r.finish.1.exit = 0 ∧ effect r.finish.2 := by
  rcases h with ⟨hfail, hfiles⟩ | ⟨hok, heffect⟩
  · obtain ⟨e, he⟩ := Option.ne_none_iff_exists'.1 hfail
    rw [CommandResult.finish, he]
    exact .inl ⟨Nat.succ_ne_zero 0, hfiles⟩
  · rw [CommandResult.finish, hok]
    exact .inr ⟨rfl, heffect⟩

/-- An extraction succeeds if its catalog can be written. -/
theorem exit_run_of_writeStringtable {arguments : List String} {seconds : Nat} {t : FileTree}
    {directory : Option String} {quiet backup : Bool} {settings : Settings}
    (hparse : Arguments.parse arguments = .ok ⟨directory, quiet, .extract backup⟩)
    (hdirectory : t.isDirectory (directory.getD ".") = true)
    (hload : Settings.load t (directory.getD ".") = .ok settings) {made : Bool} {t' : FileTree}
    (hwrite : Workspace.writeStringtable ⟨directory.getD "."⟩
      (Workspace.extracted ⟨directory.getD "."⟩ settings t) (settings.keepsBackup backup) seconds
      t = .ok made t') :
    (run arguments seconds t).1.exit = 0 := by
  obtain ⟨stdout, hrun⟩ :=
    Workspace.exists_runExtract_eq ⟨directory.getD "."⟩ settings backup quiet seconds t
  rw [run, hparse]
  dsimp only
  rw [if_pos hdirectory, hload]
  dsimp only [runCommand]
  rw [hrun, hwrite]
  split_ifs
  · rfl
  · rfl

/-- **A run does all or nothing.**  If it does not succeed, every file and directory
    is as before.  If it does, it shows help and changes nothing, or it has the
    effect of its command in the directory that it is given. -/
theorem run_allOrNothing (arguments : List String) (seconds : Nat) {t : FileTree} (ht : t.IsTree) :
    (run arguments seconds t).1.exit ≠ 0 ∧ (run arguments seconds t).2 = t ∨
      (run arguments seconds t).1.exit = 0 ∧
        match Arguments.parse arguments with
        | .error _ => (run arguments seconds t).2 = t
        | .ok a => ∃ settings dir, Settings.load t (a.directory.getD ".") = .ok settings ∧
          t.LeadsTo (a.directory.getD ".") dir ∧
          a.command.HasEffect ⟨a.directory.getD "."⟩ settings seconds dir t
            (run arguments seconds t).2 := by
  unfold run
  rcases hparse : Arguments.parse arguments with (_ | _) | a
  · exact .inl ⟨Nat.succ_ne_zero 1, rfl⟩
  · exact .inr ⟨rfl, rfl⟩
  · dsimp only
    by_cases hdirectory : t.isDirectory (a.directory.getD ".") = true
    · obtain ⟨hroot, dir, h⟩ := FileTree.exists_leadsTo hdirectory
      rw [if_pos hdirectory]
      rcases hload : Settings.load t (a.directory.getD ".") with e | settings
      · exact .inl ⟨Nat.succ_ne_zero 0, rfl⟩
      · have hall := isAllOrNothing_runCommand (w := ⟨a.directory.getD "."⟩) settings seconds
          hroot h ht a
        exact hall.finish.imp_right fun ⟨hexit, heffect⟩ =>
          ⟨hexit, settings, dir, rfl, h, heffect⟩
    · rw [if_neg hdirectory]
      exact .inl ⟨Nat.succ_ne_zero 0, rfl⟩

/-- Files with a settings file that asks for backups. -/
def backupFiles : FileTree :=
  ⟨[], Workspace.prefixedFiles.entries ++
    [(["a3trans.toml"], .file (utf8 "# settings\nbackup = true\n"))]⟩

theorem extracted_backupFiles :
    Workspace.extracted ⟨"."⟩ ⟨none, none, some true, none⟩ backupFiles =
      Workspace.prefixedCatalog := by
  decide +kernel

/-- The bytes of the old stringtable are kept, if the flag or the settings file asks
    for it. -/
theorem run_extract_prefixedFiles :
    Workspace.prefixedFiles.IsTree ∧
      (run ["extract", "-b"] 7 Workspace.prefixedFiles).2.node? ["stringtable_7.xml.bak"] =
        Workspace.prefixedFiles.node? ["stringtable.xml"] ∧
      backupFiles.IsTree ∧ Settings.HasEntry backupFiles "." ("backup", .boolean true) ∧
      (run ["extract"] 7 backupFiles).2.node? ["stringtable_7.xml.bak"] =
        backupFiles.node? ["stringtable.xml"] := by
  have hkept {arguments : List String} {t : FileTree} {settings : Settings} {backup : Bool}
      (ht : t.IsTree) (hdir : t.LeadsTo "." [])
      (hparse : Arguments.parse arguments = .ok ⟨none, false, .extract backup⟩)
      (hload : Settings.load t "." = .ok settings)
      (hextracted : Workspace.extracted ⟨"."⟩ settings t = Workspace.prefixedCatalog)
      (hwrite : ∃ made t', Workspace.writeStringtable ⟨"."⟩ Workspace.prefixedCatalog
        (settings.keepsBackup backup) 7 t = .ok made t')
      (hbackup : settings.keepsBackup backup = true)
      (hold : (t.node? ["stringtable.xml"]).isSome = true) :
      (run arguments 7 t).2.node? ["stringtable_7.xml.bak"] = t.node? ["stringtable.xml"] := by
    obtain ⟨made, t', hwrite⟩ := hwrite
    rw [← hextracted] at hwrite
    have hexit := exit_run_of_writeStringtable hparse (hdir.isDirectory (by decide)) hload hwrite
    have hkeys : (Workspace.extracted ⟨"."⟩ settings t).keys ≠ [] := by
      rw [hextracted]
      decide
    rcases run_allOrNothing arguments 7 ht with ⟨hfail, -⟩ | ⟨-, hrun⟩
    · exact absurd hexit hfail
    · rw [hparse] at hrun
      obtain ⟨settings', dir, hload', hdir', heffect⟩ := hrun
      obtain rfl := Except.ok.inj (hload.symm.trans hload')
      obtain rfl : [] = dir := Except.ok.inj (hdir.1.symm.trans hdir'.1)
      exact heffect.node?_backup hkeys hbackup hold
  have hload : Settings.load Workspace.prefixedFiles "." = .ok ⟨none, none, none, none⟩ := by
    decide +kernel
  have hload' : Settings.load backupFiles "." = .ok ⟨none, none, some true, none⟩ := by
    decide +kernel
  have hparse : Arguments.parse ["extract", "-b"] = .ok ⟨none, false, .extract true⟩ := by
    decide +kernel
  have hparse' : Arguments.parse ["extract"] = .ok ⟨none, false, .extract false⟩ := by
    decide +kernel
  have hentry : Settings.HasEntry backupFiles "." ("backup", .boolean true) :=
    (Settings.value?_eq_some_iff_of_load hload').1 rfl
  have ht : Workspace.prefixedFiles.IsTree := by decide
  have ht' : backupFiles.IsTree := by decide
  refine ⟨ht, ?_, ht', hentry, ?_⟩
  · exact hkept ht ⟨rfl, rfl⟩ hparse hload Workspace.extracted_prefixedFiles ⟨_, _, rfl⟩
      ((Settings.keepsBackup_iff_of_load hload).2 (.inl rfl)) (by decide)
  · exact hkept ht' ⟨rfl, rfl⟩ hparse' hload' extracted_backupFiles ⟨_, _, rfl⟩
      ((Settings.keepsBackup_iff_of_load hload').2 (.inr hentry)) (by decide)

end MissionText
