/-
  Catalogs and interchange documents.

  * `ofProject` exports every key with a source text.  Names become ids, so
    that white space in them is lost; groups and units without segments are
    left out.
  * `mergeInto` brings a document back into a catalog.  Ids are taken as they
    are.  A segment sets the source text and, if the document has a target
    language, that translation, where no target text deletes it.
-/
import MissionText.Catalog.Basic
import MissionText.Xliff.Basic

namespace MissionText.Xliff

/-! ## Export -/

/-- The segment of a key, if the key has a source text. -/
def Segment.ofKey? (target : Option Language) (k : Key) : Option Segment :=
  k.original?.map fun source =>
    { id := idOfName k.id
      source := source.text
      target := (target.bind fun l => k.translation? l.tag).map Translation.text }

/-- The unit of a container, if it has segments. -/
def Unit.ofContainer? (target : Option Language) (c : Container) : Option Unit :=
  match c.keys.filterMap (Segment.ofKey? target) with
  | [] => none
  | segments => some ⟨idOfName c.name, segments⟩

/-- The group of a package, if it has units. -/
def Group.ofPackage? (target : Option Language) (p : Package) : Option Group :=
  match p.containers.filterMap (Unit.ofContainer? target) with
  | [] => none
  | units => some ⟨idOfName p.name, units⟩

namespace Document

/-- The document of a catalog for one target language or none. -/
def ofProject (p : Project) (source : Language) (target : Option Language)
    (version : Version) : Document :=
  { version
    projectId := idOfName p.name
    sourceLanguage := source.code
    target
    groups := p.packages.filterMap (Group.ofPackage? target) }

/-! ## Import -/

/-- The name of the project that a document belongs to. -/
def projectName (d : Document) : String :=
  if isBlank d.projectId then defaultProjectName else spaced d.projectId

/-- The texts that a segment sets. -/
def segmentWrites (target : Option Language) (package container : String) (s : Segment) :
    List (Address × String) :=
  (⟨package, container, s.id, originalTag⟩, s.source) ::
    match target with
    | none => []
    | some l => [(⟨package, container, s.id, l.tag⟩, s.target.getD "")]

/-- The texts that a document sets, in document order. -/
def writes (d : Document) : List (Address × String) :=
  d.groups.flatMap fun g => g.units.flatMap fun u =>
    u.segments.flatMap (segmentWrites d.target g.id u.id)

/-- The catalog with the texts of a document. -/
def mergeInto (d : Document) (p : Project) : Project :=
  { p with name := d.projectName }.setAll d.writes

/-- The catalog of a document alone. -/
def toProject (d : Document) : Project := d.mergeInto Project.default

end Document

end MissionText.Xliff
