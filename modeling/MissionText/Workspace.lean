/-
  The files of a mission directory.

      <root>/stringtable.xml
      <root>/stringtable_<seconds>.xml.bak   (backups)
      <root>/l10n/strings.xlf                (source texts only)
      <root>/l10n/strings_<code>.xlf         (one for each target language)

  * `readStringtable` and `writeStringtable` go from and to the first of them;
    writing can back up what was there before.
  * `writeInterchange` writes the source file and one file for each target.
    Each file is written on its own, so one that fails stops no other.
  * `readInterchange` merges every language file there is, in the order of
    `Language.all`; files that cannot be read are listed and skipped.
-/
import MissionText.FileTree.Change
import MissionText.Stringtable
import MissionText.Xliff.Codec
import MissionText.Xliff.Exchange

namespace MissionText

open FileTree (Change)
open FileTree.Change

/-- A mission directory, given by its path. -/
structure Workspace where
  root : String
  deriving Repr, DecidableEq

/-- A file that could not be read or written. -/
structure FileFailure where
  path : String
  error : Error
  deriving Repr, DecidableEq

/-- What became of the files of an export. -/
structure ExportReport where
  written : List String
  failed : List FileFailure
  deriving Repr, DecidableEq

/-- What became of the files of an import. -/
structure ImportReport where
  imported : List Language
  failed : List FileFailure
  deriving Repr, DecidableEq

namespace Workspace

/-! ## Paths -/

def stringtablePath (w : Workspace) : String := FilePath.join w.root "stringtable.xml"

/-- The directory of the interchange files. -/
def interchangeDir (w : Workspace) : String := FilePath.join w.root "l10n"

/-- The interchange file of a target language, or that of source texts only. -/
def interchangePath (w : Workspace) (target : Option Language) : String :=
  FilePath.join w.interchangeDir <|
    match target with
    | some l => "strings_" ++ l.code ++ ".xlf"
    | none => "strings.xlf"

/-- The backup made at a time, which is in seconds. -/
def backupPath (w : Workspace) (seconds : Nat) : String :=
  FilePath.join w.root ("stringtable_" ++ toString seconds ++ ".xml.bak")

/-- A path as shown in messages. -/
def display (w : Workspace) (path : String) : String :=
  FilePath.relativeTo w.root path

/-! ## Stringtables -/

/-- The bytes of a document.  A directory can be opened but not read. -/
def readDocument (t : FileTree) (path : String) : Except Error Bytes :=
  match t.openFile path with
  | .error e => .error (.io e)
  | .ok .directory => .error (.reading .isDirectory)
  | .ok (.file content) => .ok content

/-- The catalog of the stringtable. -/
def readStringtable (w : Workspace) (t : FileTree) : Except Error Project := do
  let content ← readDocument t w.stringtablePath
  Stringtable.read content

/-- Writes the stringtable, and tells whether the one before it has been backed
    up.  A backup that fails leaves the stringtable as it was. -/
def writeStringtable (w : Workspace) (p : Project) (backup : Bool) (seconds : Nat) :
    Change Bool := do
  let backup := backup && (← get).pathExists w.stringtablePath
  if backup then perform (·.copyFile w.stringtablePath (w.backupPath seconds))
  replaceFile w.stringtablePath (utf8 (Stringtable.render p))
  return backup

/-! ## Interchange files -/

/-- The tree after the interchange files of some targets are written, and what
    became of them. -/
def writeTargets (w : Workspace) (p : Project) (source : Language) (version : Xliff.Version) :
    List (Option Language) → FileTree → FileTree × ExportReport
  | [], t => (t, ⟨[], []⟩)
  | target :: targets, t =>
    let path := w.interchangePath target
    let document := Xliff.Document.ofProject p source target version
    match replaceFile path (utf8 document.render) t with
    | .ok _ t =>
      let (t, report) := w.writeTargets p source version targets t
      (t, { report with written := path :: report.written })
    | .error e t =>
      let (t, report) := w.writeTargets p source version targets t
      (t, { report with failed := ⟨path, .io e⟩ :: report.failed })

/-- Writes the source file and the files of some target languages. -/
def writeInterchange (w : Workspace) (p : Project) (targets : List Language)
    (source : Language) (version : Xliff.Version) : Change ExportReport := do
  perform (·.createDirs w.interchangeDir)
  let (t, report) := w.writeTargets p source version (none :: targets.map some) (← get)
  set t
  return report

/-- A catalog after the interchange files of some languages are merged. -/
def readLanguages (w : Workspace) (t : FileTree) : List Language → Project → Project × ImportReport
  | [], p => (p, ⟨[], []⟩)
  | l :: ls, p =>
    let path := w.interchangePath (some l)
    if t.isFile path then
      match (readDocument t path).bind Xliff.Document.read with
      | .ok document =>
        let (p, report) := w.readLanguages t ls (document.mergeInto p)
        (p, { report with imported := l :: report.imported })
      | .error e =>
        let (p, report) := w.readLanguages t ls p
        (p, { report with failed := ⟨path, e⟩ :: report.failed })
    else w.readLanguages t ls p

/-- A catalog after all interchange files are merged. -/
def readInterchange (w : Workspace) (t : FileTree) (p : Project) :
    Except IoError (Project × ImportReport) :=
  if t.isDirectory w.interchangeDir then .ok (w.readLanguages t Language.all p)
  else .error (.noInterchange w.root)

end Workspace

end MissionText
