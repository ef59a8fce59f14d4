/-
  What an export leaves behind, file by file.

  * `FileTree.LeadsAsFar`: a path leads along directories, and what is missing of it
    from there on is not there at all.  `LeadsAsFar.exists_createDirs`: it is
    created, and nothing else changes.
  * `report_writeTargets`: the report of an export lists the files that have a
    directory in their place, and the others.
  * `IsIsolated` is what is to be true after an export: a file that cannot be written
    stops no other, and nothing but the files that are listed as written changes.
    `exists_isIsolated_writeInterchange` says this of all trees and all targets.
-/
import Mathlib.Data.List.Infix
import MissionText.Proofs.Workspace.Effects

namespace MissionText

open FileTree (KeepsDirectories)
open FileTree.Change

/-! ## Directories that are created -/

namespace FileTree

variable {t t' : FileTree} {l : Location} {path : String}

theorem IsTree.node?_append_eq_none (h : t.IsTree) (hl : t.node? l = none)
    (names : List String) : t.node? (l ++ names) = none := by
  induction names using List.reverseRecOn with
  | nil => rwa [List.append_nil]
  | append_singleton names name ih =>
    rw [← List.append_assoc]
    exact h.node?_eq_none ih name

/-- What is above a directory is a directory. -/
theorem IsTree.node?_above (h : t.IsTree) {m : Location} (hm : t.node? m = some .directory)
    (hl : l <+: m) : t.node? l = some .directory := by
  obtain ⟨names, rfl⟩ := hl
  induction names using List.reverseRecOn with
  | nil => rwa [List.append_nil] at hm
  | append_singleton names name ih =>
    rw [← List.append_assoc] at hm
    exact ih (h.node?_parent hm)

/-- Directories are created below a location where there is nothing. -/
theorem exists_createBelow {names : List String} (hup : ".." ∉ names)
    (hnone : ∀ n, n ≠ [] → n <+: names → t.node? (l ++ n) = none) :
    ∃ t', t.createBelow l names = .ok t' ∧ ∀ m, t'.node? m =
      if m <+: l ++ names ∧ ¬ m <+: l then some .directory else t.node? m := by
  induction names generalizing t l with
  | nil =>
    refine ⟨t, rfl, fun m => ?_⟩
    rw [List.append_nil, if_neg fun hand => hand.2 hand.1]
  | cons name names ih =>
    rw [List.mem_cons, not_or] at hup
    have hfirst : t.node? (l ++ [name]) = none :=
      hnone [name] (List.cons_ne_nil _ _) (List.prefix_append [name] names)
    have hput := node?_put t (l := l ++ [name]) (by simp) .directory
    obtain ⟨t', hcreate, hnodes⟩ := ih (t := t.put (l ++ [name]) .directory) (l := l ++ [name])
      hup.2 (by
        intro n hne hn
        rw [hput, if_neg (by simpa using hne), List.append_assoc]
        exact hnone _ (List.cons_ne_nil _ _) ((List.prefix_cons_inj name).2 hn))
    refine ⟨t', ?_, fun m => ?_⟩
    · rw [createBelow, if_neg (Ne.symm hup.1)]
      simp only [hfirst]
      exact hcreate
    · have happend : l ++ [name] ++ names = l ++ name :: names := by
        rw [List.append_assoc, List.singleton_append]
      rw [hnodes, hput, happend]
      by_cases hm : m = l ++ [name]
      · have hbelow : m <+: l ++ name :: names := by
          rw [hm, ← happend]
          exact List.prefix_append _ _
        have hnot : ¬ m <+: l := by
          intro habove
          have hlength := habove.length_le
          rw [hm, List.length_append, List.length_singleton] at hlength
          omega
        rw [if_pos hm, ite_self, if_pos ⟨hbelow, hnot⟩]
      · have habove : m <+: l ++ [name] ↔ m <+: l :=
          List.prefix_concat_iff.trans (or_iff_right hm)
        rw [if_neg hm]
        exact if_congr (and_congr_right' (not_congr habove)) rfl rfl

/-- The names of a path lead along directories to one, and there is nothing where the
    next name, if there is one, would lead. -/
structure LeadsAsFar (t : FileTree) (path : String) (base : Location) (missing : List String) :
    Prop where
  walk : ∃ found, names path = found ++ missing ∧ t.walk (t.origin path) found = .ok base
  directory : t.node? base = some .directory
  absent : ∀ name ∈ missing.head?, t.node? (base ++ [name]) = none
  notUp : ".." ∉ missing

theorem LeadsTo.leadsAsFar (h : t.LeadsTo path l) : t.LeadsAsFar path l [] where
  walk := ⟨names path, (List.append_nil _).symm, h.1⟩
  directory := h.2
  absent := by
    intro name hname
    cases hname
  notUp := List.not_mem_nil

/-- A path leads as far as the directory that it starts with, if the rest is missing. -/
theorem LeadsTo.leadsAsFar_join (h : t.LeadsTo path l) (hne : path ≠ "") {name : String}
    (hname : IsFileName name) (hnone : t.node? (l ++ [name]) = none) :
    t.LeadsAsFar (FilePath.join path name) l [name] where
  walk := by
    refine ⟨names path, names_join hne hname, ?_⟩
    rw [origin_join hne hname.noSlash]
    exact h.1
  directory := h.2
  absent := by
    intro n hn
    rw [List.head?_cons, Option.mem_some] at hn
    rwa [← hn]
  notUp := by
    rw [List.mem_singleton]
    exact hname.notUp.symm

/-- Names of which none leads upwards. -/
theorem eq_of_walk {names : List String} (hup : ".." ∉ names) {r : Location}
    (h : t.walk l names = .ok r) : r = l ++ names := by
  induction names generalizing l with
  | nil =>
    rw [List.append_nil]
    exact (Except.ok.inj h).symm
  | cons name names ih =>
    rw [List.mem_cons, not_or] at hup
    obtain ⟨-, h⟩ := walk_cons_eq_ok.1 h
    rw [if_neg (Ne.symm hup.1)] at h
    rw [ih hup.2 h, List.append_assoc, List.singleton_append]

variable {base : Location} {missing : List String}

/-- Nothing is below what is missing. -/
theorem LeadsAsFar.node?_eq_none (h : t.LeadsAsFar path base missing) (ht : t.IsTree)
    {n : List String} (hne : n ≠ []) (hn : n.head? = missing.head?) :
    t.node? (base ++ n) = none := by
  obtain ⟨name, n, rfl⟩ := List.exists_cons_of_ne_nil hne
  have hfirst := h.absent name (hn ▸ rfl)
  have hbelow := ht.node?_append_eq_none hfirst n
  rwa [List.append_assoc, List.singleton_append] at hbelow

/-- On the way to a path there are directories, and then nothing. -/
theorem LeadsAsFar.node?_above (h : t.LeadsAsFar path base missing) (ht : t.IsTree)
    (hl : l <+: base ++ missing) : t.node? l = some .directory ∨ t.node? l = none := by
  rcases List.prefix_or_prefix_of_prefix hl (List.prefix_append base missing) with
    hbase | ⟨n, rfl⟩
  · exact .inl (ht.node?_above h.directory hbase)
  · by_cases hne : n = []
    · rw [hne, List.append_nil]
      exact .inl h.directory
    · obtain ⟨rest, rfl⟩ := (List.prefix_append_right_inj base).1 hl
      exact .inr (h.node?_eq_none ht hne (List.head?_append_of_ne_nil n hne).symm)

/-- **What is missing of a path is created**, and nothing else changes. -/
theorem LeadsAsFar.exists_createDirs (h : t.LeadsAsFar path base missing) (ht : t.IsTree) :
    ∃ t', t.createDirs path = .ok t' ∧ t'.LeadsTo path (base ++ missing) ∧
      ∀ m, t'.node? m = if m <+: base ++ missing then some .directory else t.node? m := by
  obtain ⟨found, hnames, hwalk⟩ := h.walk
  obtain ⟨t', hcreate, hnodes⟩ := exists_createBelow (t := t) (l := base) h.notUp (by
    rintro n hne ⟨rest, rfl⟩
    exact h.node?_eq_none ht hne (List.head?_append_of_ne_nil n hne).symm)
  obtain ⟨hkeeps, hcurrent, m, hrest, hm⟩ := createBelow_eq_ok hcreate h.directory
  obtain rfl := eq_of_walk h.notUp hrest
  refine ⟨t', ?_, ⟨?_, hm⟩, fun m => ?_⟩
  · rw [createDirs, hnames, createBelow_append hwalk h.directory]
    exact hcreate
  · have horigin : t'.origin path = t.origin path := by rw [origin, hcurrent, origin]
    rw [horigin, hnames]
    exact walk_append_eq_ok.2 ⟨base, walk_of_keeps hkeeps hwalk, hrest⟩
  · rw [hnodes]
    by_cases hbase : m <+: base
    · rw [if_neg fun hand => hand.2 hbase, if_pos (hbase.trans (List.prefix_append _ _)),
        ht.node?_above h.directory hbase]
    · simp only [hbase, not_false_iff, and_true]

/-- What is below a path of which something is missing is no directory. -/
theorem LeadsAsFar.isDirectory_join (h : t.LeadsAsFar path base missing) (ht : t.IsTree)
    (hne : path ≠ "") {name : String} (hname : IsFileName name) :
    t.isDirectory (FilePath.join path name) = true ↔
      t.node? (base ++ missing ++ [name]) = some .directory := by
  obtain ⟨found, hnames, hwalk⟩ := h.walk
  cases missing with
  | nil =>
    rw [List.append_nil] at hnames ⊢
    have hleads : t.LeadsTo path base := ⟨hnames ▸ hwalk, h.directory⟩
    exact isDirectory_iff (locate_join hne hname hleads)
  | cons first rest =>
    have hnone (names : List String) : t.node? (base ++ (first :: rest ++ names)) = none :=
      h.node?_eq_none ht (List.cons_ne_nil _ _) rfl
    refine iff_of_false (fun hdirectory => ?_) ?_
    · obtain ⟨-, l, hl, -⟩ := exists_leadsTo hdirectory
      rw [names_join hne hname, origin_join hne hname.noSlash, hnames, List.append_assoc] at hl
      obtain ⟨m, hm, hl⟩ := walk_append_eq_ok.1 hl
      obtain rfl := Except.ok.inj (hm.symm.trans hwalk)
      -- What is missing is followed by a name, so it would have to be a directory.
      obtain ⟨m, hm, hl⟩ := walk_append_eq_ok.1 hl
      obtain rfl := eq_of_walk h.notUp hm
      obtain ⟨hnode, -⟩ := walk_cons_eq_ok.1 hl
      rw [← List.append_nil (first :: rest), hnone []] at hnode
      cases hnode
    · rw [List.append_assoc, hnone]
      simp

end FileTree

/-! ## Reports -/

namespace Workspace

variable {w : Workspace} {t : FileTree} {dir base : Location} {missing : List String}
  (p : Project) (source : Language) (version : Xliff.Version)

/-- **The report of an export** lists the files that have a directory in their place,
    and the others. -/
theorem report_writeTargets (h : t.LeadsTo w.interchangeDir dir) (targets : List (Option Language)) :
    (w.writeTargets p source version targets t).2 =
      ⟨(targets.filter fun target =>
          t.node? (dir ++ [interchangeName target]) ≠ some .directory).map w.interchangePath,
        (targets.filter fun target =>
          t.node? (dir ++ [interchangeName target]) = some .directory).map fun target =>
            ⟨w.interchangePath target, .io .isDirectory⟩⟩ := by
  induction targets generalizing t with
  | nil => rfl
  | cons first targets ih =>
    rw [writeTargets_cons]
    by_cases hnode : t.node? (dir ++ [interchangeName first]) = some .directory
    · rw [replaceFile_directory (locate_interchangePath h first) hnode]
      dsimp only
      rw [ih h]
      simp [hnode]
    · obtain ⟨t₁, hreplace, hfirst, hnodes⟩ :=
        replaceFile_interchangePath h hnode (exportedFile p source version first)
      -- A file that is written is in the way of no other.
      have hsame (target : Option Language) :
          t₁.node? (dir ++ [interchangeName target]) = some .directory ↔
            t.node? (dir ++ [interchangeName target]) = some .directory := by
        rw [hnodes]
        split_ifs with hplace
        · rw [hplace]
          exact iff_of_false (by simp) hnode
        · rfl
      rw [hreplace]
      dsimp only
      rw [ih hfirst]
      simp [hnode, hsame]

/-! ## Exports -/

/-- The directory of the interchange files is there, or nothing is there in its place. -/
theorem exists_leadsAsFar_interchangeDir (hroot : w.root ≠ "") (h : t.LeadsTo w.root dir)
    (hfile : ∀ content, t.node? (dir ++ ["l10n"]) ≠ some (.file content)) :
    ∃ base missing, base ++ missing = dir ++ ["l10n"] ∧
      t.LeadsAsFar w.interchangeDir base missing := by
  have hname : FileTree.IsFileName "l10n" := by decide
  rcases hnode : t.node? (dir ++ ["l10n"]) with _ | (content | _)
  · exact ⟨dir, ["l10n"], rfl, h.leadsAsFar_join hroot hname hnode⟩
  · exact absurd hnode (hfile content)
  · refine ⟨dir ++ ["l10n"], [], List.append_nil _, ?_⟩
    exact (FileTree.leadsTo_join hroot hname h hnode).leadsAsFar

/-- **What is to be true after an export** of some files, of which those with a
    directory in their place fail and no other. -/
structure IsIsolated (w : Workspace) (dir : Location) (files : List (Option Language))
    (t t' : FileTree) (report : ExportReport) : Prop where
  written : report.written =
    (files.filter fun file => !t.isDirectory (w.interchangePath file)).map w.interchangePath
  failed : report.failed =
    (files.filter fun file => t.isDirectory (w.interchangePath file)).map fun file =>
      ⟨w.interchangePath file, .io .isDirectory⟩
  /-- What is in a file does not depend on the other ones. -/
  content : ∀ file ∈ files, t.isDirectory (w.interchangePath file) = false →
    t'.readFile (w.interchangePath file) = .ok (exportedFile p source version file)
  /-- The directory of the files is created if it is missing. -/
  leadsTo : t'.LeadsTo w.interchangeDir dir
  /-- What is not written is unchanged, the directories in the way included. -/
  unchanged : ∀ l, ¬ (l <+: dir ∧ t.node? l = none) →
    (∀ file ∈ files, t.isDirectory (w.interchangePath file) = false →
      l ≠ dir ++ [interchangeName file]) →
    t'.node? l = t.node? l

/-- In a directory that is there each file is written for itself. -/
theorem isIsolated_writeTargets (h : t.LeadsTo w.interchangeDir dir)
    (files : List (Option Language)) :
    IsIsolated p source version w dir files t (w.writeTargets p source version files t).1
      (w.writeTargets p source version files t).2 := by
  have hobstructed (file : Option Language) :
      t.node? (dir ++ [interchangeName file]) = some .directory ↔
        t.isDirectory (w.interchangePath file) = true :=
    (FileTree.isDirectory_iff (locate_interchangePath h file)).symm
  have hreport := report_writeTargets p source version h files
  obtain ⟨hleads, hplaces⟩ := node?_writeTargets p source version h files
  simp only [ne_eq, hobstructed] at hreport hplaces
  constructor
  case written =>
    rw [hreport]
    simp only [Bool.not_eq_true, Bool.decide_eq_false]
  case failed =>
    rw [hreport]
    simp only [Bool.decide_eq_true]
  case content =>
    intro file hfile hfree
    have hnode := (hplaces file).trans (if_pos ⟨hfile, by simp [hfree]⟩)
    rw [FileTree.readFile, FileTree.openFile, locate_interchangePath hleads file]
    simp only [bind, Except.bind, hnode]
    rfl
  case leadsTo => exact hleads
  case unchanged =>
    intro l _ hother
    by_cases hfile : ∃ file ∈ files, l = dir ++ [interchangeName file]
    · obtain ⟨file, hfile, rfl⟩ := hfile
      have hway : t.isDirectory (w.interchangePath file) = true := by
        rw [← Bool.not_eq_false]
        exact fun hfree => hother file hfile hfree rfl
      exact (hplaces file).trans (if_neg fun hand => hand.2 hway)
    · obtain ⟨hframe, -⟩ := writeTargets_frame p source version h files
      exact hframe l fun file hmem heq => hfile ⟨file, hmem, heq⟩

/-- It makes no difference whether the directory was there or has just been created. -/
theorem IsIsolated.of_created {p : Project} {source : Language} {version : Xliff.Version}
    {files : List (Option Language)} {t₁ t' : FileTree} {report : ExportReport}
    (h : IsIsolated p source version w dir files t₁ t' report)
    (hsame : ∀ file, t₁.isDirectory (w.interchangePath file) =
      t.isDirectory (w.interchangePath file))
    (hnodes : ∀ l, ¬ (l <+: dir ∧ t.node? l = none) → t₁.node? l = t.node? l) :
    IsIsolated p source version w dir files t t' report := by
  obtain ⟨hwritten, hfailed, hcontent, hleads, hunchanged⟩ := h
  simp only [hsame] at hwritten hfailed hcontent hunchanged
  refine ⟨hwritten, hfailed, hcontent, hleads, fun l hnew hother => ?_⟩
  rw [hunchanged l (fun hgone => hnew ⟨hgone.1, hnodes l hnew ▸ hgone.2⟩) hother, hnodes l hnew]

/-- **Files that cannot be written stop no other.**  Whatever is in the way of the
    files of an export, if their directory is there or nothing is there in its place,
    the export succeeds and each file is written for itself. -/
theorem exists_isIsolated_writeInterchange (ht : t.IsTree)
    (h : t.LeadsAsFar w.interchangeDir base missing) (targets : List Language) :
    ∃ report t', w.writeInterchange p targets source version t = .ok report t' ∧
      IsIsolated p source version w (base ++ missing) (none :: targets.map some) t t' report := by
  obtain ⟨t₁, hcreate, hleads, hnodes⟩ := h.exists_createDirs ht
  refine ⟨_, _, writeInterchange_eq_ok p source version hcreate targets, ?_⟩
  refine (isIsolated_writeTargets p source version hleads _).of_created (fun file => ?_) ?_
  · -- No place of a file is on the way to the directory, so none was created.
    have hplace : t₁.node? (base ++ missing ++ [interchangeName file]) =
        t.node? (base ++ missing ++ [interchangeName file]) := by
      rw [hnodes, if_neg]
      intro habove
      have hlength := habove.length_le
      rw [List.length_append, List.length_singleton] at hlength
      omega
    rw [Bool.eq_iff_iff, FileTree.isDirectory_iff (locate_interchangePath hleads file), hplace,
      interchangePath_eq]
    exact (h.isDirectory_join ht w.interchangeDir_ne_empty (isFileName_interchangeName file)).symm
  · intro l hnew
    rw [hnodes]
    split_ifs with habove
    · rcases h.node?_above ht habove with hnode | hnone
      · exact hnode.symm
      · exact absurd ⟨habove, hnone⟩ hnew
    · rfl

/-- A mission with an old file of source texts, and a directory where the file of a
    language would be. -/
def obstructedTree : FileTree :=
  ⟨["m"], [(["m"], .directory), (["m", "l10n"], .directory),
    (["m", "l10n", "strings.xlf"], .file (utf8 "old")),
    (["m", "l10n", "strings_de.xlf"], .directory),
    (["m", "l10n", "strings_de.xlf", "notes"], .file (utf8 "kept"))]⟩

/-- The other files are written, here and in a mission that is only just created. -/
theorem exists_isIsolated_writeInterchange_obstructed :
    (∃ report t', writeInterchange ⟨"/m"⟩ spacedProject [.german, .french] .english .v1_2
        obstructedTree = .ok report t' ∧
      report.written = ["/m/l10n/strings.xlf", "/m/l10n/strings_fr.xlf"] ∧
      report.failed = [⟨"/m/l10n/strings_de.xlf", .io .isDirectory⟩] ∧
      t'.readFile "/m/l10n/strings_fr.xlf" =
        .ok (exportedFile spacedProject .english .v1_2 (some .french)) ∧
      t'.node? ["m", "l10n", "strings_de.xlf", "notes"] = some (.file (utf8 "kept"))) ∧
    ∃ report t', writeInterchange ⟨"new/m"⟩ spacedProject [.german] .english .v2_0
        obstructedTree = .ok report t' ∧
      report.written = ["new/m/l10n/strings.xlf", "new/m/l10n/strings_de.xlf"] ∧
      report.failed = [] := by
  have htree : obstructedTree.IsTree := by decide
  constructor
  · have hroot : obstructedTree.LeadsTo "/m" ["m"] := ⟨rfl, rfl⟩
    obtain ⟨base, missing, hdir, hleads⟩ := exists_leadsAsFar_interchangeDir (w := ⟨"/m"⟩)
      (by decide) hroot (by simp [obstructedTree, FileTree.node?])
    obtain ⟨report, t', hwrite, h⟩ := exists_isIsolated_writeInterchange spacedProject .english
      .v1_2 htree hleads [.german, .french]
    refine ⟨report, t', hwrite, h.written.trans rfl, h.failed.trans rfl,
      h.content (some .french) (by decide) rfl, ?_⟩
    rw [h.unchanged _ (fun hnew => by cases hnew.2)]
    · rfl
    · rw [hdir]
      intro file _ _ heq
      simpa using congrArg List.length heq
  · have hleads : obstructedTree.LeadsAsFar (interchangeDir ⟨"new/m"⟩) ["m"]
        ["new", "m", "l10n"] :=
      ⟨⟨[], rfl, rfl⟩, rfl, by simp [obstructedTree, FileTree.node?], by decide⟩
    obtain ⟨report, t', hwrite, h⟩ := exists_isIsolated_writeInterchange spacedProject .english
      .v2_0 htree hleads [.german]
    exact ⟨report, t', hwrite, h.written.trans rfl, h.failed.trans rfl⟩

end Workspace

end MissionText
