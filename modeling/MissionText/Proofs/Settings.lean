/-
  What the settings file of a directory sets.

  * `value?` is the value of a setting under its name in the file.
  * `add?_eq_some` and `exists_add?_eq` are the step: an entry is taken if it is one
    of the settings and its name is new, and then it sets this one name.
  * `foldlM_add?_eq_some_iff` is the run over all entries, by induction on them.
  * `load_eq_ok_iff`: so the settings of a directory are the entries of its file, and
    `keepsBackup_iff_of_load`: a backup is asked for by the flag or by the file.
-/
import Mathlib.Tactic.Common
import MissionText.Proofs.FileTree
import MissionText.Settings.Basic

namespace MissionText.Settings

/-! ## Values -/

/-- The value of a setting, by its name in the settings file. -/
def value? (s : Settings) (name : String) : Option Toml.Value :=
  if name = "source_language" then s.sourceLanguage.map .string
  else if name = "xliff_version" then s.xliffVersion.map fun n => .integer n.toNat
  else if name = "backup" then s.backup.map .boolean
  else if name = "project_name" then s.projectName.map .string
  else none

theorem value?_empty (name : String) : empty.value? name = none := by
  unfold value?
  split_ifs <;> rfl

/-- The settings are determined by their values. -/
theorem ext_value? {s s' : Settings} (h : ∀ name, s.value? name = s'.value? name) : s = s' := by
  have hsource := h "source_language"
  have hversion := h "xliff_version"
  have hbackup := h "backup"
  have hproject := h "project_name"
  obtain ⟨source, version, backup, project⟩ := s
  obtain ⟨source', version', backup', project'⟩ := s'
  simp only [value?, String.reduceEq, if_true, if_false] at hsource hversion hbackup hproject
  have hinj : Function.Injective fun n : UInt8 => Toml.Value.integer n.toNat := by
    intro n m hnm
    exact UInt8.toNat_inj.1 (Int.ofNat.inj (Toml.Value.integer.inj hnm))
  rw [Option.map_injective (fun _ _ => Toml.Value.string.inj) hsource,
    Option.map_injective hinj hversion,
    Option.map_injective (fun _ _ => Toml.Value.boolean.inj) hbackup,
    Option.map_injective (fun _ _ => Toml.Value.string.inj) hproject]

/-- The entries that a settings file may have, but each name only once. -/
inductive IsSetting : String × Toml.Value → Prop
  | sourceLanguage (v : String) : IsSetting ("source_language", .string v)
  | xliffVersion {n : Int} (hmin : 0 ≤ n) (hmax : n ≤ 255) : IsSetting ("xliff_version", .integer n)
  | backup (v : Bool) : IsSetting ("backup", .boolean v)
  | projectName (v : String) : IsSetting ("project_name", .string v)

/-! ## One entry -/

variable {s s' : Settings} {e : String × Toml.Value}

theorem add?_eq_some (h : s.add? e = some s') : IsSetting e ∧ s.value? e.1 = none := by
  unfold add? at h
  split at h
  · next v =>
    split_ifs at h with hset
    exact ⟨.sourceLanguage v, by simpa [value?] using hset⟩
  · next v =>
    split_ifs at h with hset
    simp only [Bool.or_eq_true, decide_eq_true_eq, not_or, Int.not_lt] at hset
    obtain ⟨⟨hnone, hmin⟩, hmax⟩ := hset
    exact ⟨.xliffVersion hmin hmax, by simpa [value?] using hnone⟩
  · next v =>
    split_ifs at h with hset
    exact ⟨.backup v, by simpa [value?] using hset⟩
  · next v =>
    split_ifs at h with hset
    exact ⟨.projectName v, by simpa [value?] using hset⟩
  · cases h

theorem exists_add?_eq (he : IsSetting e) (hs : s.value? e.1 = none) :
    ∃ s', s.add? e = some s' ∧
      ∀ name, s'.value? name = if name = e.1 then some e.2 else s.value? name := by
  cases he with
  | sourceLanguage v =>
    have hnone : s.sourceLanguage = none := by simpa [value?] using hs
    refine ⟨_, by simp only [add?, hnone]; rfl, fun name => ?_⟩
    by_cases hname : name = "source_language"
    · subst hname
      rfl
    · simp [value?, hname]
  | @xliffVersion n hmin hmax =>
    have hnone : s.xliffVersion = none := by simpa [value?] using hs
    have hadd : s.add? ("xliff_version", .integer n) =
        some { s with xliffVersion := some (UInt8.ofNat n.toNat) } := by
      simp [add?, hnone, Int.not_lt.2 hmin, Int.not_lt.2 hmax]
    have hbyte : ((UInt8.ofNat n.toNat).toNat : Int) = n := by
      rw [UInt8.toNat_ofNat_of_lt' (show n.toNat < 256 by omega), Int.toNat_of_nonneg hmin]
    refine ⟨_, hadd, fun name => ?_⟩
    by_cases hname : name = "xliff_version"
    · subst hname
      exact congrArg (fun k : Int => some (Toml.Value.integer k)) hbyte
    · simp [value?, hname]
  | backup v =>
    have hnone : s.backup = none := by simpa [value?] using hs
    refine ⟨_, by simp only [add?, hnone]; rfl, fun name => ?_⟩
    by_cases hname : name = "backup"
    · subst hname
      rfl
    · simp [value?, hname]
  | projectName v =>
    have hnone : s.projectName = none := by simpa [value?] using hs
    refine ⟨_, by simp only [add?, hnone]; rfl, fun name => ?_⟩
    by_cases hname : name = "project_name"
    · subst hname
      rfl
    · simp [value?, hname]

/-! ## All entries -/

/-- The settings after some entries: all entries are settings, none comes twice or is
    set before, and nothing else is set. -/
structure IsSetBy (s : Settings) (entries : List (String × Toml.Value)) (s' : Settings) :
    Prop where
  settings : ∀ e ∈ entries, IsSetting e
  distinct : (entries.map Prod.fst).Nodup
  unset : ∀ e ∈ entries, s.value? e.1 = none
  value?_eq_some_iff : ∀ name v,
    s'.value? name = some v ↔ s.value? name = some v ∨ (name, v) ∈ entries

theorem isSetBy_cons_iff {entries : List (String × Toml.Value)} {s₁ : Settings}
    (he : IsSetting e) (hs : s.value? e.1 = none)
    (hvalue : ∀ name, s₁.value? name = if name = e.1 then some e.2 else s.value? name) :
    IsSetBy s (e :: entries) s' ↔ IsSetBy s₁ entries s' := by
  have hiff (name : String) (v : Toml.Value) :
      s₁.value? name = some v ↔ s.value? name = some v ∨ (name, v) = e := by
    rw [hvalue]
    split_ifs with hname
    · subst hname
      simp [hs, Prod.ext_iff, eq_comm]
    · simp [hname, Prod.ext_iff]
  constructor
  · rintro ⟨hsettings, hdistinct, hunset, hvalues⟩
    obtain ⟨hnew, hdistinct⟩ := List.nodup_cons.1 hdistinct
    refine ⟨(List.forall_mem_cons.1 hsettings).2, hdistinct, fun e' he' => ?_, fun name v => ?_⟩
    · have hname : e'.1 ≠ e.1 := fun heq => hnew (heq ▸ List.mem_map_of_mem he')
      rw [hvalue, if_neg hname]
      exact hunset e' (List.mem_cons_of_mem e he')
    · rw [hvalues, hiff, List.mem_cons, or_assoc]
  · rintro ⟨hsettings, hdistinct, hunset, hvalues⟩
    have hnew : ∀ e' ∈ entries, e'.1 ≠ e.1 ∧ s.value? e'.1 = none := by
      intro e' he'
      have hnone := hunset e' he'
      rw [hvalue] at hnone
      split_ifs at hnone with hname
      exact ⟨hname, hnone⟩
    refine ⟨List.forall_mem_cons.2 ⟨he, hsettings⟩, List.nodup_cons.2 ⟨fun hmem => ?_, hdistinct⟩,
      List.forall_mem_cons.2 ⟨hs, fun e' he' => (hnew e' he').2⟩, fun name v => ?_⟩
    · obtain ⟨e', he', hname⟩ := List.mem_map.1 hmem
      exact (hnew e' he').1 hname
    · rw [hvalues, hiff, List.mem_cons, or_assoc]

/-- **The entries are taken one after the other**, if they are all settings and no
    name comes twice. -/
theorem foldlM_add?_eq_some_iff {entries : List (String × Toml.Value)} :
    entries.foldlM add? s = some s' ↔ IsSetBy s entries s' := by
  induction entries generalizing s with
  | nil =>
    rw [List.foldlM_nil]
    constructor
    · intro h
      obtain rfl := Option.some.inj h
      exact ⟨List.forall_mem_nil _, .nil, List.forall_mem_nil _, by simp⟩
    · intro h
      refine congrArg some (ext_value? fun name => Option.ext fun v => ?_)
      simpa using (h.value?_eq_some_iff name v).symm
  | cons e entries ih =>
    have hrun : (e :: entries).foldlM add? s = (s.add? e).bind fun s₁ => entries.foldlM add? s₁ :=
      List.foldlM_cons
    rw [hrun, Option.bind_eq_some_iff]
    constructor
    · rintro ⟨s₁, hadd, h⟩
      obtain ⟨he, hnone⟩ := add?_eq_some hadd
      obtain ⟨s₂, hadd', hvalue⟩ := exists_add?_eq he hnone
      obtain rfl : s₁ = s₂ := Option.some.inj (hadd.symm.trans hadd')
      exact (isSetBy_cons_iff he hnone hvalue).2 (ih.1 h)
    · intro h
      have he := h.settings e List.mem_cons_self
      have hnone := h.unset e List.mem_cons_self
      obtain ⟨s₁, hadd, hvalue⟩ := exists_add?_eq he hnone
      exact ⟨s₁, hadd, ih.2 ((isSetBy_cons_iff he hnone hvalue).1 h)⟩

theorem ofToml?_eq_some_iff {cs : List Char} : ofToml? (String.ofList cs) = some s ↔
    ∃ entries, Toml.parse? cs = some entries ∧ IsSetBy empty entries s := by
  simp only [← foldlM_add?_eq_some_iff]
  rw [ofToml?, String.toList_ofList]
  exact Option.bind_eq_some_iff

/-! ## Files -/

/-- The settings file of a directory has an entry. -/
def HasEntry (t : FileTree) (dir : String) (e : String × Toml.Value) : Prop :=
  ∃ content cs entries, t.readFile (FilePath.join dir fileName) = .ok content ∧
    Utf8.decode content = .ok cs ∧ Toml.parse? cs = some entries ∧ e ∈ entries

variable {t : FileTree} {dir : String}

/-- **The settings of a directory** are what its settings file has, if there is one. -/
theorem load_eq_ok_iff : load t dir = .ok s ↔
    t.isFile (FilePath.join dir fileName) = false ∧ s = empty ∨
      ∃ content cs entries, t.readFile (FilePath.join dir fileName) = .ok content ∧
        Utf8.decode content = .ok cs ∧ Toml.parse? cs = some entries ∧
        IsSetBy empty entries s := by
  unfold load
  dsimp only
  split_ifs with hfile
  · rcases hread : t.readFile (FilePath.join dir fileName) with e | content
    · simp [hfile]
    · rcases hdecode : Utf8.decode content with e | cs
      · simp [hfile, hdecode]
      · simp only [hfile, Bool.true_eq_false, false_and, false_or, Except.ok.injEq,
          exists_and_left, exists_eq_left', hdecode, ← ofToml?_eq_some_iff]
        rcases ofToml? (String.ofList cs) with _ | s'
        · simp
        · simp
  · have hread (content : Bytes) : t.readFile (FilePath.join dir fileName) ≠ .ok content :=
      fun h => hfile (FileTree.isFile_of_readFile h)
    simp [hfile, hread, eq_comm]

/-- **A setting has a value** if and only if the file has it. -/
theorem value?_eq_some_iff_of_load (h : load t dir = .ok s) {name : String} {v : Toml.Value} :
    s.value? name = some v ↔ HasEntry t dir (name, v) := by
  rcases load_eq_ok_iff.1 h with ⟨hfile, rfl⟩ | ⟨content, cs, entries, hread, hdecode, hparse, hset⟩
  · rw [value?_empty]
    refine iff_of_false (Option.some_ne_none v).symm ?_
    rintro ⟨content, -, -, hread, -⟩
    rw [FileTree.isFile_of_readFile hread] at hfile
    cases hfile
  · rw [hset.value?_eq_some_iff, value?_empty]
    constructor
    · rintro (hnone | hmem)
      · cases hnone
      · exact ⟨content, cs, entries, hread, hdecode, hparse, hmem⟩
    · rintro ⟨content', cs', entries', hread', hdecode', hparse', hmem⟩
      obtain rfl := Except.ok.inj (hread.symm.trans hread')
      obtain rfl := Except.ok.inj (hdecode.symm.trans hdecode')
      obtain rfl := Option.some.inj (hparse.symm.trans hparse')
      exact .inr hmem

/-- **A backup is asked for** by the flag or by the settings file. -/
theorem keepsBackup_iff_of_load (h : load t dir = .ok s) {flag : Bool} :
    s.keepsBackup flag = true ↔ flag = true ∨ HasEntry t dir ("backup", .boolean true) := by
  have hvalue : s.value? "backup" = s.backup.map .boolean := rfl
  rw [← value?_eq_some_iff_of_load h, hvalue, keepsBackup]
  rcases s.backup with _ | (_ | _)
  · simp
  · simp
  · simp

end MissionText.Settings
