/-
  Interchange documents: source texts with at most one target language.

  A `Document` has three levels, as the catalog has: groups for packages, units
  for containers, segments for keys.  It is the same whether it is written as
  XLIFF 1.2 or 2.0.
-/
import MissionText.Error
import MissionText.Language

namespace MissionText.Xliff

/-! ## Versions -/

/-- A version of XLIFF that can be written. -/
inductive Version where
  | v1_2
  | v2_0
  deriving Repr, DecidableEq

namespace Version

/-- The version number. -/
def name : Version → String
  | v1_2 => "1.2"
  | v2_0 => "2.0"

/-- The XML namespace of a version. -/
def xmlns : Version → String
  | v1_2 => "urn:oasis:names:tc:xliff:document:1.2"
  | v2_0 => "urn:oasis:names:tc:xliff:document:2.0"

/-- The version that a user names by its number or major number. -/
def ofName (name : String) : Except Error Version :=
  if trimmed name = "1" ∨ trimmed name = "1.2" then .ok v1_2
  else if trimmed name = "2" ∨ trimmed name = "2.0" then .ok v2_0
  else .error (.unsupportedVersion (trimmed name))

/-- The version of a document, told by the first character of its version
    attribute. -/
def ofAttribute (value : String) : Except Error Version :=
  match Text.trim value.toList with
  | '1' :: _ => .ok v1_2
  | '2' :: _ => .ok v2_0
  | _ => .error (.unsupportedVersion value)

end Version

/-! ## Documents -/

/-- A key: its source text and its target text, if there is one. -/
structure Segment where
  id : String
  source : String
  target : Option String
  deriving Repr, DecidableEq

/-- A container. -/
structure Unit where
  id : String
  segments : List Segment
  deriving Repr, DecidableEq

/-- A package. -/
structure Group where
  id : String
  units : List Unit
  deriving Repr, DecidableEq

/-- An interchange document. -/
structure Document where
  version : Version
  projectId : String
  sourceLanguage : String
  /-- The target language; none for a document of source texts only. -/
  target : Option Language
  groups : List Group
  deriving Repr, DecidableEq

/-- A name as an id: its words joined by underscores. -/
def idOfName (name : String) : String :=
  String.ofList (Text.joinWords '_' name.toList)

/-- A text with each underscore replaced by a space. -/
def spaced (s : String) : String :=
  String.ofList (s.toList.map fun c => if c = '_' then ' ' else c)

namespace Document

/-- The number of segments. -/
def segmentCount (d : Document) : Nat :=
  ((d.groups.flatMap Group.units).flatMap Unit.segments).length

end Document

end MissionText.Xliff
