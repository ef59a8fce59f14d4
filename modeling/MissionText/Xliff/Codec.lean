/-
  The XML of interchange documents.

  The two versions name the levels differently and keep the languages in
  different places: version 1.2 nests `group`, `group` and `trans-unit` in a
  `body` and has the languages on `file`; version 2.0 nests `group`, `unit` and
  `segment` in `file` and has the languages on the root.

  * `toElement` and `render` write, `ofElement` and `read` read.
  * A document without a target language can be written but not read.
-/
import MissionText.Catalog.Basic
import MissionText.Text.Encoding
import MissionText.Xliff.Basic
import MissionText.Xml.Document
import MissionText.Xml.Printer

namespace MissionText.Xliff

open Xml

/-! ## Writing -/

/-- The element of a segment. -/
def segmentElement (name : String) (s : Segment) : Element :=
  ⟨name, [("id", s.id)], .ofElements
    (⟨"source", [], .ofText s.source⟩ ::
      (s.target.map fun t => (⟨"target", [], .ofText t⟩ : Element)).toList)⟩

/-- The element of a unit. -/
def unitElement (name segmentName : String) (u : Unit) : Element :=
  ⟨name, [("id", u.id)], .ofElements (u.segments.map (segmentElement segmentName))⟩

/-- The element of a group. -/
def groupElement (unitName segmentName : String) (g : Group) : Element :=
  ⟨"group", [("id", g.id)], .ofElements (g.units.map (unitElement unitName segmentName))⟩

/-- The body of a document in version 1.2. -/
def bodyElement (d : Document) : Element :=
  ⟨"body", [], .ofElements (d.groups.map (groupElement "group" "trans-unit"))⟩

/-- The file of a document in version 1.2. -/
def fileElement1 (d : Document) : Element :=
  ⟨"file",
    [("original", d.projectId), ("source-language", d.sourceLanguage)] ++
      (d.target.map fun l => ("target-language", l.code)).toList ++
      [("datatype", "plaintext")],
    .ofElement (bodyElement d)⟩

/-- The root element of a document in version 1.2. -/
def element1 (d : Document) : Element :=
  ⟨"xliff", [("xmlns", Version.v1_2.xmlns), ("version", Version.v1_2.name)],
    .ofElement (fileElement1 d)⟩

/-- The file of a document in version 2.0. -/
def fileElement2 (d : Document) : Element :=
  ⟨"file", [("id", d.projectId)], .ofElements (d.groups.map (groupElement "unit" "segment"))⟩

/-- The root element of a document in version 2.0. -/
def element2 (d : Document) : Element :=
  ⟨"xliff",
    [("xmlns", Version.v2_0.xmlns), ("version", Version.v2_0.name),
      ("srcLang", d.sourceLanguage), ("trgLang", (d.target.map Language.code).getD "")],
    .ofElement (fileElement2 d)⟩

namespace Document

/-- The root element of a document. -/
def toElement (d : Document) : Element :=
  match d.version with
  | .v1_2 => element1 d
  | .v2_0 => element2 d

/-- The text of a document. -/
def render (d : Document) : String := printDocument d.toElement

end Document

/-! ## Reading -/

/-- The value of an attribute that is not blank. -/
def filled? (e : Element) (name : String) : Option String :=
  (e.value? name).filter fun v => !isBlank v

/-- The language of a code that may be missing. -/
def targetLanguage (code : Option String) : Except Error Language :=
  match code with
  | none => .error (.missingField .targetLanguage)
  | some code =>
    match Language.ofCode? code with
    | some l => .ok l
    | none => .error (.unsupportedLanguage (trimmed code))

/-- A child element that must be there. -/
def child (e : Element) (name : String) : Except Error Element :=
  match e.child? name with
  | some c => .ok c
  | none => .error (.malformed (.missingElement name))

/-- The segment of an element. -/
def segmentOf (e : Element) : Segment :=
  { id := e.value "id"
    source := ((e.child? "source").map Element.allText).getD ""
    target := (e.child? "target").map Element.allText }

/-- The unit of an element. -/
def unitOf (segmentName : String) (e : Element) : Unit :=
  ⟨e.value "id", (e.named segmentName).map segmentOf⟩

/-- The group of an element. -/
def groupOf (unitName segmentName : String) (e : Element) : Group :=
  ⟨e.value "id", (e.named unitName).map (unitOf segmentName)⟩

/-- A document that must have groups. -/
def withGroups (d : Document) : Except Error Document :=
  if d.groups.isEmpty then .error (.malformed .noGroups) else .ok d

/-- The project id of a document that does not give one. -/
def defaultProjectId : String := idOfName defaultProjectName

/-- The source language of a document that does not give one. -/
def defaultSourceLanguage : String := "en"

/-- The document of a root element of version 1. -/
def document1 (root : Element) : Except Error Document := do
  let file ← child root "file"
  let target ← targetLanguage (filled? file "target-language")
  let body ← child file "body"
  withGroups
    { version := .v1_2
      projectId := (filled? file "original").getD defaultProjectId
      sourceLanguage := (filled? file "source-language").getD defaultSourceLanguage
      target := some target
      groups := (body.named "group").map (groupOf "group" "trans-unit") }

/-- The document of a root element of version 2. -/
def document2 (root : Element) : Except Error Document := do
  let target ← targetLanguage (filled? root "trgLang")
  let file ← child root "file"
  withGroups
    { version := .v2_0
      projectId := (filled? file "id").getD defaultProjectId
      sourceLanguage := (filled? root "srcLang").getD defaultSourceLanguage
      target := some target
      groups := (file.named "group").map (groupOf "unit" "segment") }

namespace Document

/-- The document of a root element. -/
def ofElement (root : Element) : Except Error Document := do
  if root.name ≠ "xliff" then throw (.malformed (.wrongRoot "xliff" root.name))
  match filled? root "version" with
  | none => throw (.missingField .version)
  | some value =>
    match ← Version.ofAttribute value with
    | .v1_2 => document1 root
    | .v2_0 => document2 root

/-- The document of bytes in UTF-8. -/
def readUtf8 (bs : Bytes) : Except Error Document := do
  let root ← (parseDocument bs).mapError .ofDocumentFault
  ofElement root

/-- The document of a text. -/
def readText (s : String) : Except Error Document := readUtf8 (utf8 s)

/-- The document of a file's content. -/
def read (bs : Bytes) : Except Error Document := readUtf8 (Encoding.toUtf8 bs)

end Document

end MissionText.Xliff
