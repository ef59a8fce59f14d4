/-
  The settings of a mission directory, and how flags override them.

  Every setting is optional.  A flag of the command line comes before the
  settings file, the file before the default.
-/
import MissionText.Catalog.Basic
import MissionText.FileTree
import MissionText.Settings.Toml
import MissionText.Xliff.Basic

namespace MissionText

/-- What a settings file can set. -/
structure Settings where
  sourceLanguage : Option String
  xliffVersion : Option UInt8
  backup : Option Bool
  projectName : Option String
  deriving Repr, DecidableEq

/-- Why the settings of a directory cannot be used. -/
inductive SettingsError where
  /-- The file cannot be read. -/
  | unreadable (path : String) (error : IoError)
  /-- The file is not TOML, or sets something else than settings. -/
  | invalid (path : String)
  deriving Repr, DecidableEq

/-- The wording of a settings error. -/
def SettingsError.message : SettingsError → String
  | .unreadable path error => "Error reading " ++ path ++ ": " ++ error.message
  | .invalid path => "Error parsing " ++ path ++ ": not a valid settings file"

namespace Settings

/-- The name of the settings file. -/
def fileName : String := "a3trans.toml"

/-- Nothing is set. -/
def empty : Settings := ⟨none, none, none, none⟩

/-! ## Reading -/

/-- The settings with one more entry, which must not be set before. -/
def add? (s : Settings) : String × Toml.Value → Option Settings
  | ("source_language", .string v) =>
    if s.sourceLanguage.isSome then none else some { s with sourceLanguage := some v }
  | ("xliff_version", .integer v) =>
    if s.xliffVersion.isSome || v < 0 || 255 < v then none
    else some { s with xliffVersion := some (UInt8.ofNat v.toNat) }
  | ("backup", .boolean v) =>
    if s.backup.isSome then none else some { s with backup := some v }
  | ("project_name", .string v) =>
    if s.projectName.isSome then none else some { s with projectName := some v }
  | _ => none

/-- The settings in the text of a file. -/
def ofToml? (content : String) : Option Settings := do
  let entries ← Toml.parse? content.toList
  entries.foldlM add? empty

/-- The settings of a directory; without a file nothing is set. -/
def load (t : FileTree) (dir : String) : Except SettingsError Settings :=
  let path := FilePath.join dir fileName
  if t.isFile path then
    match t.readFile path with
    | .error e => .error (.unreadable path e)
    | .ok content =>
      match Utf8.decode content with
      | .error _ => .error (.unreadable path .notText)
      | .ok cs =>
        match ofToml? (String.ofList cs) with
        | some s => .ok s
        | none => .error (.invalid path)
  else .ok empty

/-! ## Use -/

/-- The language of the source texts.  A code that is not known counts as
    English. -/
def source (s : Settings) (flag : Option String) : Language :=
  ((flag.or s.sourceLanguage).bind Language.ofCode?).getD .english

/-- The version to be written; the failure carries the name that is not one. -/
def version (s : Settings) (flag : Option String) : Except String Xliff.Version :=
  match flag.or (s.xliffVersion.map fun n => toString n.toNat) with
  | none => .ok .v1_2
  | some name =>
    match Xliff.Version.ofName name with
    | .ok v => .ok v
    | .error _ => .error name

/-- The old stringtable is to be kept. -/
def keepsBackup (s : Settings) (flag : Bool) : Bool :=
  flag || s.backup.getD false

/-- The name of a new project; the name in the reference comes first, and a
    blank name counts as none. -/
def nameOfProject (s : Settings) (reference : Option String) : String :=
  ((reference.or s.projectName).filter (!isBlank ·)).getD defaultProjectName

end Settings

end MissionText
