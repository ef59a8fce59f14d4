/-
  The four commands, as functions on a file tree.

  A run gives an exit code, two texts and the files after it.

  * `extract` reads every script and writes a new stringtable, with the present
    one as reference; a reference that cannot be read counts as missing.
  * `exportFiles` writes interchange files from the stringtable, `importFiles`
    writes a stringtable from the interchange files.
  * `dump` writes the stringtable as JSON.

  A command that fails says so in one line.
-/
import MissionText.Catalog.Json
import MissionText.Command.Arguments
import MissionText.Discovery.Scripts
import MissionText.Script.Extraction
import MissionText.Settings.Basic
import MissionText.Workspace

namespace MissionText

/-! ## Results -/

/-- What a run shows. -/
structure Outcome where
  exit : Nat
  stdout : String
  stderr : String
  deriving Repr, DecidableEq

/-- Why a command fails. -/
inductive CommandError where
  | notDirectory (path : String)
  | settings (error : SettingsError)
  | badVersion (name : String)
  | badLanguage (error : Error)
  | readingStringtable (error : Error)
  | writingStringtable (error : IoError)
  | readingInterchange (error : IoError)
  | creatingDirectory (error : IoError)
  | nothingWritten
  | nothingImported
  | writingJson (path : String) (error : IoError)
  deriving Repr, DecidableEq

/-- The wording of a failure. -/
def CommandError.message : CommandError → String
  | .notDirectory path => path ++ " is not a directory"
  | .settings error => error.message
  | .badVersion name => "Unsupported XLIFF version '" ++ name ++ "', expected 1 or 2"
  | .badLanguage error => error.message
  | .readingStringtable error => "Error reading stringtable.xml: " ++ error.message
  | .writingStringtable error => "Error writing stringtable.xml: " ++ (Error.io error).message
  | .readingInterchange error => "Error reading XLIFF files: " ++ (Error.io error).message
  | .creatingDirectory error => "Error creating the l10n directory: " ++ (Error.io error).message
  | .nothingWritten => "No XLIFF file could be written"
  | .nothingImported => "No translations found in the l10n directory"
  | .writingJson path error => "Error writing to " ++ path ++ ": " ++ error.message

/-- What a command shows and leaves.  A failure may have been preceded by
    messages. -/
structure CommandResult where
  stdout : String
  stderr : String
  failure? : Option CommandError
  files : FileTree
  deriving Repr, DecidableEq

namespace CommandResult

/-- A failure without anything shown before it. -/
def fail (e : CommandError) (t : FileTree) : CommandResult := ⟨"", "", some e, t⟩

/-- What a run shows and leaves. -/
def finish (r : CommandResult) : Outcome × FileTree :=
  match r.failure? with
  | none => (⟨0, r.stdout, r.stderr⟩, r.files)
  | some e => (⟨1, r.stdout, r.stderr ++ "Error: " ++ e.message ++ "\n"⟩, r.files)

end CommandResult

/-- Lines with their line ends. -/
def unlines (lines : List String) : String :=
  String.join (lines.map (· ++ "\n"))

/-! ## Extraction -/

/-- The text of a script file. -/
def scriptText (content : Bytes) : String :=
  lossyText (Encoding.toUtf8 content)

/-- The output after a script file, and the report on it. -/
def extractFile (t : FileTree) (reference : Project) (path : String) (output : Project) :
    Except IoError (Project × Report) := do
  let content ← t.readFile path
  return extract reference (FilePath.baseName path) (scriptText content) output

/-- The output after script files, the report on them, and how many could not
    be read. -/
def extractFiles (t : FileTree) (reference : Project) :
    List String → Project → Project × Report × Nat
  | [], output => (output, .empty, 0)
  | path :: paths, output =>
    match extractFile t reference path output with
    | .error _ =>
      let (output, report, failed) := extractFiles t reference paths output
      (output, report, failed + 1)
    | .ok (output, report) =>
      let (output, reports, failed) := extractFiles t reference paths output
      (output, report.add reports, failed)

/-- The paths of the scripts below a directory. -/
def scriptPaths (t : FileTree) (root : String) : List String :=
  match t.locate root with
  | .error _ => []
  | .ok top =>
    (Discovery.discover t top).map fun names => FilePath.join root (String.intercalate "/" names)

/-- Extracts the scripts into the stringtable.  Without any directive the
    stringtable is left as it is. -/
def runExtract (w : Workspace) (settings : Settings) (backup quiet : Bool) (seconds : Nat)
    (t : FileTree) : CommandResult :=
  let reference? := (w.readStringtable t).toOption
  let scripts := scriptPaths t w.root
  let (output, report, failed) :=
    extractFiles t (reference?.getD .default) scripts
      (.new (settings.nameOfProject (reference?.map Project.name)))
  let shown := if quiet then "" else unlines
    ["Scripts: " ++ toString scripts.length ++ " (" ++ toString failed ++ " failed)",
      "Directives: " ++ toString report.directives,
      "Keys: " ++ toString output.keyCount,
      "Carried forward: " ++ toString report.carried,
      "Resolved from reference: " ++ toString report.resolved,
      "Orphan identifiers: " ++ toString report.orphans.length]
  if output.isEmpty then ⟨shown, "", none, t⟩
  else match w.writeStringtable output (settings.keepsBackup backup) seconds t with
    | .error e t => .fail (.writingStringtable e) t
    | .ok _ t => ⟨shown, "", none, t⟩

/-! ## Export -/

/-- The languages of codes, each once. -/
def languagesOf : List Language → List String → Except Error (List Language)
  | found, [] => .ok found
  | found, code :: codes =>
    match Language.ofCode? code with
    | none => .error (.unsupportedLanguage (trimmed code))
    | some l => languagesOf (if found.contains l then found else found ++ [l]) codes

/-- The target languages of an export: none, those asked for, or all. -/
def targetsOf (sourceOnly : Bool) (codes : List String) : Except Error (List Language) :=
  if sourceOnly then .ok []
  else if codes.isEmpty then .ok Language.all
  else languagesOf [] codes

/-- What an export is to write: the version, the target languages and the
    catalog. -/
def exportPlan (w : Workspace) (settings : Settings) (options : ExportOptions) (t : FileTree) :
    Except CommandError (Xliff.Version × List Language × Project) := do
  let version ← (settings.version options.version).mapError .badVersion
  let targets ← (targetsOf options.sourceOnly options.languages).mapError .badLanguage
  let p ← (w.readStringtable t).mapError .readingStringtable
  return (version, targets, p)

/-- Writes the interchange files. -/
def runExport (w : Workspace) (settings : Settings) (options : ExportOptions) (quiet : Bool)
    (t : FileTree) : CommandResult :=
  match exportPlan w settings options t with
  | .error e => .fail e t
  | .ok (version, targets, p) =>
    match w.writeInterchange p targets (settings.source options.source) version t with
    | .error e t => .fail (.creatingDirectory e) t
    | .ok report t =>
      { stdout := if quiet then "" else unlines (report.written.map ("Wrote " ++ w.display ·))
        stderr := unlines (report.failed.map fun f =>
          "Failed to write " ++ w.display f.path ++ ": " ++ f.error.message)
        failure? := if report.written.isEmpty then some .nothingWritten else none
        files := t }

/-! ## Import -/

/-- Writes the stringtable from the interchange files. -/
def runImport (w : Workspace) (settings : Settings) (backup quiet : Bool) (seconds : Nat)
    (t : FileTree) : CommandResult :=
  match w.readInterchange t (.new (settings.nameOfProject none)) with
  | .error e => .fail (.readingInterchange e) t
  | .ok (p, report) =>
    let skipped := unlines (report.failed.map fun f =>
      "Skipped " ++ w.display f.path ++ ": " ++ f.error.message)
    if p.isEmpty then ⟨"", skipped, some .nothingImported, t⟩
    else match w.writeStringtable p (settings.keepsBackup backup) seconds t with
      | .error e t => ⟨"", skipped, some (.writingStringtable e), t⟩
      | .ok _ t =>
        { stdout := if quiet then "" else unlines
            ["Imported languages: " ++
                String.intercalate ", " (report.imported.map Language.code),
              "Keys: " ++ toString p.keyCount]
          stderr := skipped
          failure? := none
          files := t }

/-! ## Dump -/

/-- Writes the stringtable as JSON, to a file or to the standard output. -/
def runDump (w : Workspace) (output : Option String) (t : FileTree) : CommandResult :=
  match w.readStringtable t with
  | .error e => .fail (.readingStringtable e) t
  | .ok p =>
    match output with
    | none => ⟨p.json ++ "\n", "", none, t⟩
    | some path =>
      match t.writeFile path (utf8 p.json) with
      | .ok t => ⟨"", "", none, t⟩
      | .error e => .fail (.writingJson path e) t

/-! ## Runs -/

/-- A command in a directory that exists. -/
def runCommand (w : Workspace) (settings : Settings) (a : Arguments) (seconds : Nat)
    (t : FileTree) : CommandResult :=
  match a.command with
  | .extract backup => runExtract w settings backup a.quiet seconds t
  | .exportFiles options => runExport w settings options a.quiet t
  | .importFiles backup => runImport w settings backup a.quiet seconds t
  | .dump output => runDump w output t

/-- What is shown for arguments that ask for help, or need it. -/
def usageText : String := unlines
  ["Usage: [OPTIONS] <COMMAND>",
    "",
    "Commands:",
    "  extract  Extract translation strings from the scripts into stringtable.xml",
    "  export   Convert stringtable.xml into XLIFF files in the l10n directory",
    "  import   Convert the XLIFF files in the l10n directory into stringtable.xml",
    "  dump     Print stringtable.xml as JSON",
    "",
    "Options:",
    "  -d, --directory <DIRECTORY>  Working directory; the current directory when omitted",
    "  -v, --verbose                Print debug output",
    "  -q, --quiet                  Only print warnings and errors"]

/-- A run at a time, which is in seconds. -/
def run (arguments : List String) (seconds : Nat) (t : FileTree) : Outcome × FileTree :=
  match Arguments.parse arguments with
  | .error .help => (⟨0, usageText, ""⟩, t)
  | .error .usage => (⟨2, "", usageText⟩, t)
  | .ok a =>
    let root := a.directory.getD "."
    let result : CommandResult :=
      if t.isDirectory root then
        match Settings.load t root with
        | .error e => .fail (.settings e) t
        | .ok settings => runCommand ⟨root⟩ settings a seconds t
      else .fail (.notDirectory root) t
    result.finish

end MissionText
