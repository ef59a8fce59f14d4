/-
  Which scripts are found below a directory.

  * `LeadsToScript`: names lead from a directory, through directories of whatever
    names, to a regular file with the name of a script.  In a tree these are the
    files of the search (`mem_scriptFiles_iff`).
  * `HoldsNoIgnoreFiles`: without ignore files nothing is ignored
    (`isVisible_eq_true`), so that all scripts are found.
  * `withoutIgnoreFiles`: a tree has the same scripts without its ignore files
    (`scriptFiles_withoutIgnoreFiles`), and paths can be left out of the sorted list
    (`filter_sortPaths`), so ignore files only take paths out of it.
  * `listsExactly_discover`: the list of scripts, without and with ignore files.
-/
import Mathlib.Data.String.Basic
import MissionText.Discovery.Scripts
import MissionText.Proofs.Workspace.Effects

namespace MissionText

/-! ## Trees -/

namespace FileTree

variable {t : FileTree} {l : Location}

/-- With one entry for each location, an entry is what stands there. -/
theorem node?_eq_some_of_mem (h : (t.entries.map Prod.fst).Nodup) {node : FileNode}
    (hmem : (l, node) ∈ t.entries) (hl : l ≠ []) : t.node? l = some node := by
  rcases hnode : t.node? l with _ | node'
  · rw [node?, if_neg (by simpa using hl), Option.map_eq_none_iff, List.find?_eq_none] at hnode
    exact absurd (decide_eq_true rfl) (hnode _ hmem)
  · have hmem' := exists_mem_entries hnode hl
    have heq := List.inj_on_of_nodup_map h hmem hmem' rfl
    cases heq
    rfl

end FileTree

/-! ## Scripts -/

/-- A name of a script. -/
def IsScript (name : String) : Prop :=
  (∃ stem, name = stem ++ ".sqf") ∨ (∃ stem, name = stem ++ ".SQF") ∨
    name = "description.ext" ∨ name = "mission.sqm"

theorem isSuffixOf_toList_iff {ending name : String} :
    ending.toList.isSuffixOf name.toList = true ↔ ∃ stem, name = stem ++ ending := by
  rw [List.isSuffixOf_iff_suffix]
  constructor
  · rintro ⟨stem, hstem⟩
    exact ⟨String.ofList stem, by rw [← String.toList_inj, String.toList_append,
      String.toList_ofList, hstem]⟩
  · rintro ⟨stem, rfl⟩
    exact ⟨stem.toList, String.toList_append.symm⟩

theorem isScriptName_iff {name : String} : isScriptName name = true ↔ IsScript name := by
  simp only [isScriptName, IsScript, Bool.or_eq_true, isSuffixOf_toList_iff, beq_iff_eq, or_assoc]

namespace Discovery

variable {t : FileTree} {top : Location} {names : List String}

/-- Names lead from a directory to a script.  All directories on the way are
    searched, whatever their names are. -/
inductive LeadsToScript (t : FileTree) : Location → List String → Prop
  | script {dir : Location} {name : String} {content : Bytes} :
      t.node? dir = some .directory → t.node? (dir ++ [name]) = some (.file content) →
      IsScript name → LeadsToScript t dir [name]
  | inside {dir : Location} {name : String} {names : List String} :
      t.node? dir = some .directory → LeadsToScript t (dir ++ [name]) names →
      LeadsToScript t dir (name :: names)

theorem LeadsToScript.node?_directory {dir : Location} (h : LeadsToScript t dir names) :
    t.node? dir = some .directory := by
  cases h with
  | script hdir | inside hdir => exact hdir

/-- In a tree the directories on the way are there. -/
theorem leadsToScript_iff (ht : t.IsTree) : LeadsToScript t top names ↔
    ∃ dir name content, names = dir ++ [name] ∧ IsScript name ∧
      t.node? (top ++ names) = some (.file content) := by
  constructor
  · intro h
    induction h with
    | @script dir name content _ hfile hname => exact ⟨[], name, content, rfl, hname, hfile⟩
    | @inside dir first names _ _ ih =>
      obtain ⟨inner, name, content, rfl, hname, hfile⟩ := ih
      rw [List.append_assoc] at hfile
      exact ⟨first :: inner, name, content, rfl, hname, hfile⟩
  · rintro ⟨dir, name, content, rfl, hname, hfile⟩
    induction dir generalizing top with
    | nil => exact .script (ht.node?_parent hfile) hfile hname
    | cons first dir ih =>
      have hbelow : LeadsToScript t (top ++ [first]) (dir ++ [name]) :=
        ih (by rwa [List.append_assoc])
      exact .inside (ht.node?_parent hbelow.node?_directory) hbelow

theorem namesBelow?_eq_some_iff {l : Location} : namesBelow? top l = some names ↔
    l = top ++ names := by
  induction top generalizing l with
  | nil => exact ⟨Option.some.inj, congrArg some⟩
  | cons a top ih =>
    rcases l with _ | ⟨b, l⟩
    · simp [namesBelow?]
    · rw [namesBelow?]
      split_ifs with hab
      · simp [ih, hab]
      · simp [Ne.symm hab]

/-! ## Files -/

/-- The names that lead from `top` to an entry below it, if it is a regular file. -/
def fileBelow? (top : Location) (e : Location × FileNode) : Option (List String) :=
  match e.2 with
  | .file _ => namesBelow? top e.1
  | .directory => none

theorem fileBelow?_eq_some_iff {e : Location × FileNode} : fileBelow? top e = some names ↔
    e.1 = top ++ names ∧ ∃ content, e.2 = .file content := by
  obtain ⟨l, content | _⟩ := e
  · simp [fileBelow?, namesBelow?_eq_some_iff]
  · simp [fileBelow?]

/-- The regular files below a directory. -/
def filesBelow (t : FileTree) (top : Location) : List (List String) :=
  t.entries.filterMap (fileBelow? top)

theorem mem_filesBelow_iff (h : (t.entries.map Prod.fst).Nodup) (hnames : names ≠ []) :
    names ∈ filesBelow t top ↔ ∃ content, t.node? (top ++ names) = some (.file content) := by
  have hne : top ++ names ≠ [] := List.append_ne_nil_of_right_ne_nil top hnames
  rw [filesBelow, List.mem_filterMap]
  simp only [fileBelow?_eq_some_iff]
  constructor
  · rintro ⟨⟨l, node⟩, hmem, rfl, content, rfl⟩
    exact ⟨content, FileTree.node?_eq_some_of_mem h hmem hne⟩
  · rintro ⟨content, hnode⟩
    exact ⟨_, FileTree.exists_mem_entries hnode hne, rfl, content, rfl⟩

theorem nodup_filesBelow (h : (t.entries.map Prod.fst).Nodup) (top : Location) :
    (filesBelow t top).Nodup := by
  rw [filesBelow, List.Nodup, List.pairwise_filterMap]
  refine (List.pairwise_map.1 h).imp fun {e e'} hne names hnames names' hnames' heq => hne ?_
  rw [(fileBelow?_eq_some_iff.1 hnames).1, (fileBelow?_eq_some_iff.1 hnames').1, heq]

/-- The last of the names is that of a script. -/
def endsInScript (names : List String) : Bool := (names.getLast?.map isScriptName).getD false

theorem endsInScript_iff : endsInScript names = true ↔
    ∃ dir name, names = dir ++ [name] ∧ IsScript name := by
  rcases List.eq_nil_or_concat' names with rfl | ⟨dir, name, rfl⟩
  · simp [endsInScript]
  · rw [endsInScript, List.getLast?_concat]
    change isScriptName name = true ↔ _
    rw [isScriptName_iff]
    constructor
    · exact fun hname => ⟨dir, name, rfl, hname⟩
    · rintro ⟨dir', name', heq, hname⟩
      obtain ⟨-, hlast⟩ := List.append_inj' heq rfl
      cases hlast
      exact hname

theorem scriptFiles_eq (t : FileTree) (top : Location) :
    scriptFiles t top = (filesBelow t top).filter endsInScript := by
  rw [scriptFiles, filesBelow, List.filter_filterMap]
  refine List.filterMap_congr fun e _ => ?_
  obtain ⟨l, content | _⟩ := e
  · rcases hbelow : namesBelow? top l with _ | names
    · simp [fileBelow?, hbelow]
    · simp only [fileBelow?, hbelow, Option.filter, endsInScript]
      rfl
  · rfl

/-- **The files of the search are the scripts** of a tree. -/
theorem mem_scriptFiles_iff (ht : t.IsTree) (h : (t.entries.map Prod.fst).Nodup) :
    names ∈ scriptFiles t top ↔ LeadsToScript t top names := by
  rw [scriptFiles_eq, List.mem_filter, endsInScript_iff, leadsToScript_iff ht]
  constructor
  · rintro ⟨hfile, dir, name, rfl, hname⟩
    obtain ⟨content, hnode⟩ := (mem_filesBelow_iff h (by simp)).1 hfile
    exact ⟨dir, name, content, rfl, hname, hnode⟩
  · rintro ⟨dir, name, content, rfl, hname, hnode⟩
    exact ⟨(mem_filesBelow_iff h (by simp)).2 ⟨content, hnode⟩, dir, name, rfl, hname⟩

theorem nodup_scriptFiles (h : (t.entries.map Prod.fst).Nodup) (top : Location) :
    (scriptFiles t top).Nodup := by
  rw [scriptFiles_eq]
  exact (nodup_filesBelow h top).filter _

/-! ## The order of paths -/

/-- The first path does not come after the other, as their names are compared. -/
def pathLe (a b : List String) : Bool := !List.lex b a fun x y => decide (x < y)

theorem pathLe_iff {a b : List String} : pathLe a b = true ↔ a ≤ b := by
  rw [pathLe, Bool.not_eq_true', Bool.eq_false_iff, ne_eq, List.lex_eq_true_iff_lex, ← not_lt]
  simp only [decide_eq_true_eq]
  exact Iff.rfl

/-- Paths in order. -/
def sortPaths (paths : List (List String)) : List (List String) := paths.mergeSort pathLe

theorem discover_eq (t : FileTree) (top : Location) :
    discover t top = sortPaths ((scriptFiles t top).filter (isVisible t top)) := rfl

theorem sortPaths_perm (paths : List (List String)) : (sortPaths paths).Perm paths :=
  List.mergeSort_perm paths _

theorem pairwise_sortPaths (paths : List (List String)) :
    (sortPaths paths).Pairwise (· ≤ ·) := by
  have htrans (a b c : List String) (hab : pathLe a b = true) (hbc : pathLe b c = true) :
      pathLe a c = true :=
    pathLe_iff.2 ((pathLe_iff.1 hab).trans (pathLe_iff.1 hbc))
  have htotal (a b : List String) : (pathLe a b || pathLe b a) = true := by
    rw [Bool.or_eq_true, pathLe_iff, pathLe_iff]
    exact le_total a b
  exact (List.pairwise_mergeSort htrans htotal paths).imp pathLe_iff.1

/-- Paths without repetition are sorted strictly, by the bytes of their names. -/
theorem increasing_sortPaths {paths : List (List String)} (h : paths.Nodup) :
    (sortPaths paths).Pairwise fun a b => a.map utf8 < b.map utf8 := by
  have hnodup : (sortPaths paths).Nodup := (sortPaths_perm paths).nodup_iff.2 h
  refine ((pairwise_sortPaths paths).and hnodup).imp fun {a b} hab => ?_
  exact List.map_lt (fun _ _ => utf8_lt_utf8) (lt_of_le_of_ne hab.1 hab.2)

/-- The scripts of `a` come before those of `a.b`. -/
example : sortPaths [["a.b", "x.sqf"], ["a", "x.sqf"], ["a", "b.sqf"]] =
    [["a", "b.sqf"], ["a", "x.sqf"], ["a.b", "x.sqf"]] := by
  cbv

/-- Paths can be left out before or after they are sorted. -/
theorem filter_sortPaths (p : List String → Bool) (paths : List (List String)) :
    (sortPaths paths).filter p = sortPaths (paths.filter p) := by
  have hperm : ((sortPaths paths).filter p).Perm (sortPaths (paths.filter p)) :=
    ((sortPaths_perm paths).filter p).trans (sortPaths_perm (paths.filter p)).symm
  exact hperm.eq_of_pairwise (fun a b _ _ => le_antisymm)
    ((pairwise_sortPaths paths).filter p) (pairwise_sortPaths _)

/-! ## Ignore files -/

/-- Where a directory may have a file of rules. -/
def ignoreFiles : List Location := [[".ignore"], [".gitignore"], [".git", "info", "exclude"]]

/-- The names of an ignore file of some directory. -/
def IsIgnorePath (names : List String) : Prop := ∃ file ∈ ignoreFiles, file <:+ names

instance : DecidablePred IsIgnorePath := fun names =>
  inferInstanceAs (Decidable (∃ file ∈ ignoreFiles, file <:+ names))

/-- There is no ignore file in the directory, nor in one below it. -/
def HoldsNoIgnoreFiles (t : FileTree) (top : Location) : Prop :=
  ∀ names content, IsIgnorePath names → t.node? (top ++ names) ≠ some (.file content)

theorem rulesAt_eq_nil (h : HoldsNoIgnoreFiles t top) {file : Location} (hfile : file ∈ ignoreFiles)
    (names : List String) : rulesAt t (top ++ names ++ file) = [] := by
  unfold rulesAt
  split
  · next content hnode =>
    rw [List.append_assoc] at hnode
    exact absurd hnode (h _ content ⟨file, hfile, List.suffix_append names file⟩)
  · rfl

theorem firstVerdict_eq_undecided (h : HoldsNoIgnoreFiles t top) {file : Location}
    (hfile : file ∈ ignoreFiles) (isDirectory : Bool) {dirs : List (Location × List String)}
    (hdirs : ∀ d ∈ dirs, ∃ names, d.1 = top ++ names) :
    firstVerdict t file isDirectory dirs = .undecided := by
  induction dirs with
  | nil => rfl
  | cons d dirs ih =>
    obtain ⟨names, hd⟩ := hdirs d List.mem_cons_self
    have hverdict : verdictOf t d.1 file d.2 isDirectory = .undecided := by
      rw [verdictOf, hd, rulesAt_eq_nil h hfile]
      rfl
    have hrest := ih fun d hd => hdirs d (List.mem_cons_of_mem _ hd)
    rw [firstVerdict] at hrest
    rw [firstVerdict, List.foldr_cons, hrest, hverdict]
    rfl

theorem exists_of_mem_chain {d : Location × List String} (h : d ∈ chain top names) :
    ∃ above, d.1 = top ++ above := by
  rw [chain, List.mem_reverse, List.mem_map] at h
  obtain ⟨n, -, rfl⟩ := h
  exact ⟨_, rfl⟩

theorem withinRepository_subset (t : FileTree) (top : Location)
    (dirs : List (Location × List String)) : withinRepository t top dirs ⊆ dirs := by
  have hspan := List.takeWhile_append_dropWhile (p := fun d => !startsRepository t d.1) (l := dirs)
  rw [withinRepository, List.span_eq_takeWhile_dropWhile]
  split
  · next inner d rest heq =>
    obtain ⟨rfl, hrest⟩ := Prod.mk.inj heq
    rw [hrest] at hspan
    intro d' hd'
    rw [← hspan]
    simp only [List.mem_append, List.mem_cons, List.not_mem_nil, or_false] at hd' ⊢
    tauto
  · split_ifs
    · exact List.Subset.refl dirs
    · exact List.nil_subset dirs

theorem entryVerdict_eq_undecided (h : HoldsNoIgnoreFiles t top) (names : List String)
    (isDirectory : Bool) : entryVerdict t top names isDirectory = .undecided := by
  have hchain : ∀ d ∈ chain top names, ∃ above, d.1 = top ++ above :=
    fun d hd => exists_of_mem_chain hd
  have hrepository : ∀ d ∈ withinRepository t top (chain top names), ∃ above, d.1 = top ++ above :=
    fun d hd => hchain d (withinRepository_subset t top _ hd)
  rw [entryVerdict, firstVerdict_eq_undecided h (by simp [ignoreFiles]) isDirectory hchain,
    firstVerdict_eq_undecided h (by simp [ignoreFiles]) isDirectory hrepository,
    firstVerdict_eq_undecided h (by simp [ignoreFiles]) isDirectory hrepository]
  rfl

/-- **Nothing is ignored without ignore files.** -/
theorem isVisible_eq_true (h : HoldsNoIgnoreFiles t top) (names : List String) :
    isVisible t top names = true := by
  rw [isVisible, List.all_eq_true]
  intro n _
  rw [entryVerdict_eq_undecided h]
  rfl

theorem discover_of_holdsNoIgnoreFiles (h : HoldsNoIgnoreFiles t top) :
    discover t top = sortPaths (scriptFiles t top) := by
  rw [discover_eq, List.filter_eq_self.2 fun names _ => isVisible_eq_true h names]

/-! ## Trees without their ignore files -/

/-- The entry is an ignore file below `top`. -/
def isIgnoreFile (top : Location) (e : Location × FileNode) : Bool :=
  (fileBelow? top e).any fun names => decide (IsIgnorePath names)

end Discovery

/-- The tree without the ignore files below `top`. -/
def FileTree.withoutIgnoreFiles (t : FileTree) (top : Location) : FileTree :=
  { t with entries := t.entries.filter (!Discovery.isIgnoreFile top ·) }

namespace Discovery

variable {t : FileTree} {top : Location} {names : List String}

theorem holdsNoIgnoreFiles_of_entries (h : ∀ e ∈ t.entries, isIgnoreFile top e = false) :
    HoldsNoIgnoreFiles t top := by
  rintro names content hnames hnode
  have hne : top ++ names ≠ [] := by
    rintro hnil
    rw [hnil] at hnode
    cases hnode
  have hignore := h _ (FileTree.exists_mem_entries hnode hne)
  rw [isIgnoreFile, fileBelow?_eq_some_iff.2 ⟨rfl, content, rfl⟩] at hignore
  exact absurd hnames (of_decide_eq_false hignore)

theorem holdsNoIgnoreFiles_withoutIgnoreFiles (t : FileTree) (top : Location) :
    HoldsNoIgnoreFiles (t.withoutIgnoreFiles top) top := by
  refine holdsNoIgnoreFiles_of_entries fun e he => ?_
  simpa using (List.mem_filter.1 he).2

theorem filesBelow_withoutIgnoreFiles (t : FileTree) (top : Location) :
    filesBelow (t.withoutIgnoreFiles top) top =
      (filesBelow t top).filter fun names => !decide (IsIgnorePath names) := by
  rw [filesBelow, filesBelow, FileTree.withoutIgnoreFiles, List.filterMap_filter,
    List.filter_filterMap]
  refine List.filterMap_congr fun e _ => ?_
  rw [isIgnoreFile]
  rcases fileBelow? top e with _ | names
  · rfl
  · rfl

/-- An ignore file is not a script. -/
theorem endsInScript_of_isIgnorePath (h : IsIgnorePath names) : endsInScript names = false := by
  have hfiles : ∀ file ∈ ignoreFiles, file ≠ [] ∧ endsInScript file = false := by decide
  obtain ⟨file, hfile, above, rfl⟩ := h
  obtain ⟨hne, hends⟩ := hfiles file hfile
  rw [endsInScript, List.getLast?_append_of_ne_nil above hne]
  exact hends

theorem scriptFiles_withoutIgnoreFiles (t : FileTree) (top : Location) :
    scriptFiles (t.withoutIgnoreFiles top) top = scriptFiles t top := by
  rw [scriptFiles_eq, scriptFiles_eq, filesBelow_withoutIgnoreFiles, List.filter_filter]
  refine List.filter_congr fun names _ => ?_
  by_cases hnames : IsIgnorePath names
  · rw [endsInScript_of_isIgnorePath hnames, Bool.false_and]
  · rw [decide_eq_false hnames, Bool.not_false, Bool.and_true]

/-! ## The list of scripts -/

/-- The list has the paths with a property, each of them once, in the order of
    their names, which are compared by their bytes. -/
structure ListsExactly (paths : List (List String)) (p : List String → Prop) : Prop where
  mem_iff : ∀ names, names ∈ paths ↔ p names
  increasing : paths.Pairwise fun a b => a.map utf8 < b.map utf8

/-- **The list of scripts is exact**: it has all scripts of a tree without ignore
    files, and of any tree it has a part of those without its ignore files. -/
theorem listsExactly_discover (t : FileTree) (top : Location) :
    (t.IsTree → (t.entries.map Prod.fst).Nodup → HoldsNoIgnoreFiles t top →
      ListsExactly (discover t top) (LeadsToScript t top)) ∧
      (discover t top).Sublist (discover (t.withoutIgnoreFiles top) top) := by
  constructor
  · intro ht hnodup hnone
    rw [discover_of_holdsNoIgnoreFiles hnone]
    exact ⟨fun names => by rw [(sortPaths_perm _).mem_iff, mem_scriptFiles_iff ht hnodup],
      increasing_sortPaths (nodup_scriptFiles hnodup top)⟩
  · rw [discover_of_holdsNoIgnoreFiles (holdsNoIgnoreFiles_withoutIgnoreFiles t top),
      scriptFiles_withoutIgnoreFiles, discover_eq, ← filter_sortPaths]
    exact List.filter_sublist

/-- Directories with the names of scripts, hidden ones, and names of which one starts
    with the other. -/
def missionFiles : FileTree where
  current := []
  entries := [(["m"], .directory), (["m", "a.b"], .directory), (["m", "a.b", "x.SQF"], .file []),
    (["m", "a"], .directory), (["m", "a", "fn.sqf"], .file []), (["m", "lib.sqf"], .directory),
    (["m", "lib.sqf", ".sqf"], .file []), (["m", ".old"], .directory),
    (["m", ".old", "mission.sqm"], .file []), (["m", "c.Sqf"], .file [])]

theorem listsExactly_discover_missionFiles :
    missionFiles.IsTree ∧ (missionFiles.entries.map Prod.fst).Nodup ∧
      HoldsNoIgnoreFiles missionFiles ["m"] ∧
      ListsExactly (discover missionFiles ["m"]) (LeadsToScript missionFiles ["m"]) := by
  have htree : missionFiles.IsTree := by decide
  have hnodup : (missionFiles.entries.map Prod.fst).Nodup := by decide
  have hnone : HoldsNoIgnoreFiles missionFiles ["m"] := holdsNoIgnoreFiles_of_entries (by decide)
  exact ⟨htree, hnodup, hnone, (listsExactly_discover missionFiles ["m"]).1 htree hnodup hnone⟩

end Discovery

end MissionText
