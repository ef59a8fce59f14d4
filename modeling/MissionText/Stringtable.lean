/-
  The stringtable: the catalog as the game reads it.

  The element `Project` holds `Package`, `Container` and `Key` elements, and
  every child element of a `Key` is a translation whose name is the language
  tag and whose text is the translation.

  * `ofElement` reads the tree as a list of writes in document order
    (`writes`), so the last of several translations at one address counts.
    Containers and keys are found at any depth, keys without an id are skipped.
  * `toElement` builds the tree; empty nodes are left out.
  * `read` and `render` go from and to the text of the document.
-/
import MissionText.Catalog.Basic
import MissionText.Error
import MissionText.Xml.Document
import MissionText.Xml.Printer
import MissionText.Text.Encoding

namespace MissionText.Stringtable

open Xml

/-! ## Reading -/

/-- The translations of a `Key` element. -/
def keyWrites (package container : String) (key : Element) : List (Address × String) :=
  let id := key.value "ID"
  if id.isEmpty then []
  else key.content.elements.map fun t => (⟨package, container, id, t.name⟩, t.allText)

/-- The translations of a `Package` element. -/
def packageWrites (package : Element) : List (Address × String) :=
  (package.descendants "Container").flatMap fun container =>
    (container.descendants "Key").flatMap
      (keyWrites (package.value "name") (container.value "name"))

/-- The translations of a `Project` element. -/
def writes (root : Element) : List (Address × String) :=
  (root.named "Package").flatMap packageWrites

/-- The catalog of a root element. -/
def ofElement (root : Element) : Except Error Project :=
  if root.name ≠ "Project" then .error (.malformed (.wrongRoot "Project" root.name))
  else
    let project :=
      (Project.new ((root.value? "name").getD defaultProjectName)).setAll (writes root)
    if project.isEmpty then .error (.emptyProject project.name) else .ok project

/-- The catalog of a document in UTF-8. -/
def readUtf8 (bs : Bytes) : Except Error Project := do
  let root ← (parseDocument bs).mapError .ofDocumentFault
  ofElement root

/-- The catalog of a text. -/
def readText (s : String) : Except Error Project := readUtf8 (utf8 s)

/-- The catalog of a file's content. -/
def read (bs : Bytes) : Except Error Project := readUtf8 (Encoding.toUtf8 bs)

/-! ## Writing -/

/-- The element of a translation. -/
def translationElement (t : Translation) : Element :=
  ⟨t.language, [], .ofText t.text⟩

/-- The element of a key. -/
def keyElement (k : Key) : Element :=
  ⟨"Key", [("ID", k.id)], .ofElements (k.translations.map translationElement)⟩

/-- The element of a container. -/
def containerElement (c : Container) : Element :=
  ⟨"Container", [("name", c.name)],
    .ofElements ((c.keys.filter (!·.isEmpty)).map keyElement)⟩

/-- The element of a package. -/
def packageElement (p : Package) : Element :=
  ⟨"Package", [("name", p.name)],
    .ofElements ((p.containers.filter (!·.isEmpty)).map containerElement)⟩

/-- The root element of a catalog. -/
def toElement (p : Project) : Element :=
  ⟨"Project", [("name", p.name)],
    .ofElements ((p.packages.filter (!·.isEmpty)).map packageElement)⟩

/-- The document of a catalog. -/
def render (p : Project) : String := printIndented (toElement p)

end MissionText.Stringtable
