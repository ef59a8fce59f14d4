/-
  The arguments of the command line.

  The program has four commands.  Options that belong to no command may stand
  before or after its name; the others only after it.

  * `readOptions` reads options up to the first argument that is none.  Long
    options take their value after `=` or from the next argument; short ones
    also directly after the letter, and letters may share one hyphen.  A value
    of its own must not look like an option.
  * An option may be given once among the arguments before the command and once
    among those after it, where the latter counts; only languages may be
    repeated.
-/

namespace MissionText

/-! ## Results -/

/-- What an export is to write. -/
structure ExportOptions where
  version : Option String
  source : Option String
  sourceOnly : Bool
  languages : List String
  deriving Repr, DecidableEq

/-- A command with its options. -/
inductive Command where
  | extract (backup : Bool)
  | exportFiles (options : ExportOptions)
  | importFiles (backup : Bool)
  | dump (output : Option String)
  deriving Repr, DecidableEq

/-- The arguments of a run. -/
structure Arguments where
  directory : Option String
  quiet : Bool
  command : Command
  deriving Repr, DecidableEq

/-- Why arguments do not make up a run. -/
inductive ArgumentError where
  /-- The arguments are wrong. -/
  | usage
  /-- The arguments ask for help. -/
  | help
  deriving Repr, DecidableEq

/-! ## Options -/

/-- The options. -/
inductive Flag where
  | directory
  | verbose
  | quiet
  | help
  | version
  | backup
  | xliffVersion
  | sourceLanguage
  | sourceOnly
  | language
  | output
  deriving Repr, DecidableEq

namespace Flag

/-- The long name of an option. -/
def longName : Flag → String
  | directory => "directory"
  | verbose => "verbose"
  | quiet => "quiet"
  | help => "help"
  | version => "version"
  | backup => "backup"
  | xliffVersion => "xliff-version"
  | sourceLanguage => "source-lang"
  | sourceOnly => "source-only"
  | language => "lang"
  | output => "output"

/-- The letter of an option. -/
def letter? : Flag → Option Char
  | directory => some 'd'
  | verbose => some 'v'
  | quiet => some 'q'
  | help => some 'h'
  | version => some 'V'
  | backup => some 'b'
  | xliffVersion => some 'x'
  | sourceLanguage => some 's'
  | sourceOnly => none
  | language => some 'l'
  | output => some 'o'

/-- The option has a value. -/
def takesValue : Flag → Bool
  | directory | xliffVersion | sourceLanguage | language | output => true
  | _ => false

/-- The value is a path, which is never empty. -/
def takesPath : Flag → Bool
  | directory | output => true
  | _ => false

end Flag

/-- An option as given, with an empty value if it has none. -/
structure Occurrence where
  flag : Flag
  value : String
  deriving Repr, DecidableEq

/-- Options that one argument gives, and the option whose value is the next
    argument. -/
structure ArgumentOptions where
  complete : List Occurrence
  pending : Option Flag
  deriving Repr, DecidableEq

/-- The letters after a hyphen. -/
def readLetters (allowed : List Flag) : List Char → Except ArgumentError ArgumentOptions
  | [] => .ok ⟨[], none⟩
  | c :: cs =>
    match allowed.find? (·.letter? = some c) with
    | none => .error .usage
    | some flag =>
      if flag = .help ∨ flag = .version then .error .help
      else if flag.takesValue then
        match cs with
        | [] => .ok ⟨[], some flag⟩
        | '=' :: value => .ok ⟨[⟨flag, String.ofList value⟩], none⟩
        | value => .ok ⟨[⟨flag, String.ofList value⟩], none⟩
      else (readLetters allowed cs).map fun o => { o with complete := ⟨flag, ""⟩ :: o.complete }

/-- The text after two hyphens. -/
def readLong (allowed : List Flag) (cs : List Char) : Except ArgumentError ArgumentOptions :=
  let name := String.ofList (cs.takeWhile (· != '='))
  match allowed.find? (·.longName = name) with
  | none => .error .usage
  | some flag =>
    match cs.dropWhile (· != '=') with
    | [] =>
      if flag = .help ∨ flag = .version then .error .help
      else if flag.takesValue then .ok ⟨[], some flag⟩
      else .ok ⟨[⟨flag, ""⟩], none⟩
    | _ :: value =>
      if flag.takesValue then .ok ⟨[⟨flag, String.ofList value⟩], none⟩ else .error .usage

/-- The argument looks like an option. -/
def looksLikeOption (argument : String) : Bool :=
  match argument.toList with
  | '-' :: _ :: _ => true
  | _ => false

/-- The options of one argument, if it is one. -/
def readArgument (allowed : List Flag) (argument : String) :
    Option (Except ArgumentError ArgumentOptions) :=
  match argument.toList with
  | ['-', '-'] => none
  | '-' :: '-' :: cs => some (readLong allowed cs)
  | '-' :: c :: cs => some (readLetters allowed (c :: cs))
  | _ => none

/-- The options at the start of arguments, and the arguments after them. -/
def readOptions (allowed : List Flag) :
    List String → Except ArgumentError (List Occurrence × List String)
  | [] => .ok ([], [])
  | argument :: rest =>
    match readArgument allowed argument with
    | none => .ok ([], argument :: rest)
    | some (.error e) => .error e
    | some (.ok ⟨complete, none⟩) =>
      (readOptions allowed rest).map fun (os, rest) => (complete ++ os, rest)
    | some (.ok ⟨complete, some flag⟩) =>
      match rest with
      | [] => .error .usage
      | value :: rest =>
        if looksLikeOption value then .error .usage
        else (readOptions allowed rest).map fun (os, rest) =>
          (complete ++ ⟨flag, value⟩ :: os, rest)

/-- The options that may stand anywhere. -/
def globalFlags : List Flag := [.directory, .verbose, .quiet, .help]

/-- The options are given in a way that makes sense: once each but for
    languages, with paths that are not empty, and either verbose or quiet. -/
def areConsistent (os : List Occurrence) : Bool :=
  decide ((os.filter (·.flag ≠ .language)).map (·.flag)).Nodup &&
    os.all (fun o => !(o.flag.takesPath && o.value.isEmpty)) &&
    !(os.any (·.flag = .verbose) && os.any (·.flag = .quiet))

/-- The last value of an option. -/
def valueOf? (os : List Occurrence) (flag : Flag) : Option String :=
  (os.reverse.find? (·.flag = flag)).map (·.value)

/-- The option is given. -/
def isGiven (os : List Occurrence) (flag : Flag) : Bool :=
  os.any (·.flag = flag)

/-! ## Commands -/

/-- The parts of a text between commas. -/
def splitCommas (s : String) : List String :=
  (s.toList.splitOn ',').map String.ofList

/-- The options of a command of a name, and how they make up the command. -/
def commandOf? : String → Option (List Flag × (List Occurrence → Command))
  | "extract" => some ([.backup], fun os => .extract (isGiven os .backup))
  | "export" =>
    some ([.xliffVersion, .sourceLanguage, .sourceOnly, .language], fun os =>
      .exportFiles
        { version := valueOf? os .xliffVersion
          source := valueOf? os .sourceLanguage
          sourceOnly := isGiven os .sourceOnly
          languages := (os.filter (·.flag = .language)).flatMap fun o => splitCommas o.value })
  | "import" => some ([.backup], fun os => .importFiles (isGiven os .backup))
  | "dump" => some ([.output], fun os => .dump (valueOf? os .output))
  | _ => none

/-- The run that arguments ask for. -/
def Arguments.parse (arguments : List String) : Except ArgumentError Arguments := do
  let (before, rest) ← readOptions (.version :: globalFlags) arguments
  match rest with
  | [] => throw .usage
  | name :: rest =>
    if name = "help" then throw .help
    match commandOf? name with
    | none => throw .usage
    | some (flags, command) =>
      let (after, rest) ← readOptions (flags ++ globalFlags) rest
      if rest ≠ [] ∧ rest ≠ ["--"] then throw .usage
      if !areConsistent before || !areConsistent after then throw .usage
      return {
        directory := valueOf? (before ++ after) .directory
        quiet := isGiven (before ++ after) .quiet
        command := command after }

end MissionText
