/-
  Why an operation on a catalog fails.

  An `Error` says what is wrong, and `Error.message` words it.  Faults of the
  content of a document are told apart from failures of the file system
  (`isDocumentError`).
-/
import MissionText.Xml.Fault

namespace MissionText

/-! ## Causes -/

/-- Why the file system refuses an operation. -/
inductive IoError where
  | notFound
  | alreadyExists
  | isDirectory
  | notDirectory
  /-- The source of a copy is not a regular file. -/
  | notRegular
  /-- A file that is read as text is not UTF-8. -/
  | notText
  /-- There is no directory of interchange files below `root`. -/
  | noInterchange (root : String)
  deriving Repr, DecidableEq

/-- The wording of a failure of the file system. -/
def IoError.message : IoError → String
  | .notFound => "No such file or directory (os error 2)"
  | .alreadyExists => "File exists (os error 17)"
  | .isDirectory => "Is a directory (os error 21)"
  | .notDirectory => "Not a directory (os error 20)"
  | .notRegular => "the source path is neither a regular file nor a symlink to a regular file"
  | .notText => "stream did not contain valid UTF-8"
  | .noInterchange root => "cannot find the l10n directory in " ++ root

/-- Why a well-formed or nearly well-formed document makes no sense. -/
inductive Malformed where
  /-- A tag has a faulty attribute. -/
  | tag (fault : Xml.AttributeFault)
  | unexpectedClose
  | unclosedElement (name : String)
  | manyRoots
  | noRoot
  /-- The root element has the wrong name. -/
  | wrongRoot (expected found : String)
  /-- An element that must be there is missing. -/
  | missingElement (name : String)
  /-- An interchange file without packages. -/
  | noGroups
  deriving Repr, DecidableEq

/-- The wording of a malformed document. -/
def Malformed.message : Malformed → String
  | .tag fault => fault.message
  | .unexpectedClose => "unexpected closing tag"
  | .unclosedElement name => "unclosed element <" ++ name ++ ">"
  | .manyRoots => "document has more than one root element"
  | .noRoot => "document has no root element"
  | .wrongRoot expected found =>
    "expected root element <" ++ expected ++ ">, found <" ++ found ++ ">"
  | .missingElement name => "missing <" ++ name ++ "> element"
  | .noGroups => "no package <group> elements found"

/-- A field that a document must have. -/
inductive RequiredField where
  | version
  | targetLanguage
  deriving Repr, DecidableEq

/-- The wording of a required field. -/
def RequiredField.message : RequiredField → String
  | .version => "xliff/@version"
  | .targetLanguage => "target language"

/-! ## Errors -/

/-- Why an operation on a catalog fails. -/
inductive Error where
  /-- The reader of markup stops. -/
  | xml (fault : Xml.Fault)
  /-- The file system fails while a document is being read. -/
  | reading (error : IoError)
  /-- The file system refuses an operation. -/
  | io (error : IoError)
  | malformed (cause : Malformed)
  | unsupportedVersion (version : String)
  | unsupportedLanguage (code : String)
  | missingField (field : RequiredField)
  /-- A stringtable without translations. -/
  | emptyProject (name : String)
  deriving Repr, DecidableEq

namespace Error

/-- The wording of an error. -/
def message : Error → String
  | xml fault => "XML parse error: " ++ fault.message
  | reading error => "XML parse error: I/O error: " ++ error.message
  | io error => "I/O error: " ++ error.message
  | malformed cause => "malformed document: " ++ cause.message
  | unsupportedVersion version => "unsupported XLIFF version: " ++ version
  | unsupportedLanguage code => "unsupported language code: " ++ code
  | missingField field => "missing required field: " ++ field.message
  | emptyProject name =>
    "no packages found: stringtable of project '" ++ name ++ "' has no packages with content"

/-- The error comes from the content of a document and not from the file
    system. -/
def isDocumentError : Error → Bool
  | io _ => false
  | _ => true

/-- The error of a document that is not one element tree. -/
def ofDocumentFault : Xml.DocumentFault → Error
  | .reader fault => xml fault
  | .tag fault => malformed (.tag fault)
  | .unexpectedClose => malformed .unexpectedClose
  | .unclosedElement name => malformed (.unclosedElement name)
  | .manyRoots => malformed .manyRoots
  | .noRoot => malformed .noRoot

end Error

end MissionText
