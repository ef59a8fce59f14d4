/-
  The catalog of a mission: packages of containers of keys, each key with its
  text in some languages.

  A translation is found by its `Address`, whose four parts are compared by
  `sameFolded` at their level.  `set` writes a text; the empty text stands for no
  translation at all, so setting it deletes, and a node that loses its last
  child goes with it.  `erase` is setting the empty text.
-/
import MissionText.Catalog.Siblings

namespace MissionText

/-- The language tag of the source text of a key. -/
def originalTag : String := "Original"

/-- The name of a project that nothing else names. -/
def defaultProjectName : String := "My Project"

/-! ## Nodes -/

/-- The text of a key in one language. -/
structure Translation where
  language : String
  text : String
  deriving Repr, DecidableEq

/-- A key with its translations. -/
structure Key where
  id : String
  translations : List Translation
  deriving Repr, DecidableEq

/-- A container of keys. -/
structure Container where
  name : String
  keys : List Key
  deriving Repr, DecidableEq

/-- A package of containers. -/
structure Package where
  name : String
  containers : List Container
  deriving Repr, DecidableEq

/-- A catalog. -/
structure Project where
  name : String
  packages : List Package
  deriving Repr, DecidableEq

instance : Named Translation := ⟨Translation.language⟩
instance : Named Key := ⟨Key.id⟩
instance : Named Container := ⟨Container.name⟩
instance : Named Package := ⟨Package.name⟩

/-- The place of a translation in a catalog. -/
structure Address where
  package : String
  container : String
  key : String
  language : String
  deriving Repr, DecidableEq

/-- The translation is a source text; only the case of ASCII letters is
    ignored. -/
def Translation.isOriginal (t : Translation) : Bool :=
  sameAscii t.language originalTag

/-! ## Keys -/

namespace Key

/-- A key without translations. -/
def new (id : String) : Key := ⟨id, []⟩

def isEmpty (k : Key) : Bool := k.translations.isEmpty

/-- The translation into a language. -/
def translation? (k : Key) (language : String) : Option Translation :=
  Siblings.find? language k.translations

/-- The source text. -/
def original? (k : Key) : Option Translation := k.translation? originalTag

/-- The key has a source text, without which it is not exported. -/
def isExportable (k : Key) : Bool := k.original?.isSome

/-- The key with a text in a language, or without any for the empty text. -/
def set (k : Key) (language text : String) : Key :=
  { k with
    translations :=
      Siblings.edit language ⟨language, ""⟩ (·.text.isEmpty) (fun t => { t with text := text })
        k.translations }

end Key

/-! ## Containers -/

namespace Container

/-- A container without keys. -/
def new (name : String) : Container := ⟨name, []⟩

def isEmpty (c : Container) : Bool := c.keys.isEmpty

/-- The key of an id. -/
def key? (c : Container) (id : String) : Option Key := Siblings.find? id c.keys

/-- Some key has a source text. -/
def isExportable (c : Container) : Bool := c.keys.any Key.isExportable

/-- The translation of a key into a language. -/
def translation? (c : Container) (key language : String) : Option Translation :=
  (c.key? key).bind (·.translation? language)

/-- All translations of a key. -/
def translations (c : Container) (key : String) : List Translation :=
  ((c.key? key).map Key.translations).getD []

/-- The container with a text for a key in a language. -/
def set (c : Container) (key language text : String) : Container :=
  { c with keys := Siblings.edit key (.new key) Key.isEmpty (·.set language text) c.keys }

end Container

/-! ## Packages -/

namespace Package

/-- A package without containers. -/
def new (name : String) : Package := ⟨name, []⟩

def isEmpty (p : Package) : Bool := p.containers.isEmpty

/-- The container of a name. -/
def container? (p : Package) (name : String) : Option Container :=
  Siblings.find? name p.containers

/-- Some key has a source text. -/
def isExportable (p : Package) : Bool := p.containers.any Container.isExportable

/-- The translation of a key into a language. -/
def translation? (p : Package) (container key language : String) : Option Translation :=
  (p.container? container).bind (·.translation? key language)

/-- All translations of a key. -/
def translations (p : Package) (container key : String) : List Translation :=
  ((p.container? container).map (·.translations key)).getD []

/-- The package with a text for a key in a language. -/
def set (p : Package) (container key language text : String) : Package :=
  { p with
    containers :=
      Siblings.edit container (.new container) Container.isEmpty (·.set key language text)
        p.containers }

end Package

/-! ## Projects -/

namespace Project

/-- A project without packages. -/
def new (name : String) : Project := ⟨name, []⟩

/-- The project before anything is known about it. -/
def default : Project := new defaultProjectName

def isEmpty (p : Project) : Bool := p.packages.isEmpty

/-- The package of a name. -/
def package? (p : Project) (name : String) : Option Package :=
  Siblings.find? name p.packages

/-- Some key has a source text. -/
def isExportable (p : Project) : Bool := p.packages.any Package.isExportable

/-- All keys in declaration order. -/
def keys (p : Project) : List Key :=
  p.packages.flatMap fun package => package.containers.flatMap Container.keys

/-- The number of keys. -/
def keyCount (p : Project) : Nat := p.keys.length

/-- The translation at an address. -/
def translation? (p : Project) (a : Address) : Option Translation :=
  (p.package? a.package).bind (·.translation? a.container a.key a.language)

/-- All translations of a key. -/
def translations (p : Project) (package container key : String) : List Translation :=
  ((p.package? package).map (·.translations container key)).getD []

/-- The project with a text at an address, or without any for the empty
    text. -/
def set (p : Project) (a : Address) (text : String) : Project :=
  { p with
    packages :=
      Siblings.edit a.package (.new a.package) Package.isEmpty
        (·.set a.container a.key a.language text) p.packages }

/-- The project without the translation at an address. -/
def erase (p : Project) (a : Address) : Project := p.set a ""

/-- The project after texts are set one after the other. -/
def setAll (p : Project) (writes : List (Address × String)) : Project :=
  writes.foldl (fun p w => p.set w.1 w.2) p

end Project

end MissionText
