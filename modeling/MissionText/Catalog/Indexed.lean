/-
  Catalogs with an index at every level.

  These are the nodes of a catalog with `Children` in place of lists.  They
  answer the questions of `MissionText.Project` that go by names, and they tell
  what a removal takes away.  `plain` forgets the indexes.

  A search by id alone goes through the packages and containers in declaration
  order, and in each container through its index.
-/
import MissionText.Catalog.Children
import MissionText.Catalog.Search

namespace MissionText.Indexed

/-! ## Nodes -/

/-- A key with its translations. -/
structure Key where
  id : String
  translations : Children Translation
  deriving Repr, DecidableEq

/-- A container of keys. -/
structure Container where
  name : String
  keys : Children Key
  deriving Repr, DecidableEq

/-- A package of containers. -/
structure Package where
  name : String
  containers : Children Container
  deriving Repr, DecidableEq

/-- A catalog. -/
structure Project where
  name : String
  packages : Children Package
  deriving Repr, DecidableEq

instance : Named Key := ⟨Key.id⟩
instance : Named Container := ⟨Container.name⟩
instance : Named Package := ⟨Package.name⟩

/-! ## Keys -/

namespace Key

/-- A key without translations. -/
def new (id : String) : Key := ⟨id, .empty⟩

def isEmpty (k : Key) : Bool := k.translations.isEmpty

/-- The translation into a language. -/
def translation? (k : Key) (language : String) : Option Translation :=
  k.translations.get? language

/-- The translation into a language, and the key without it. -/
def remove (k : Key) (language : String) : Option Translation × Key :=
  let (removed, translations) := k.translations.remove language
  (removed, { k with translations })

/-- The key with a text in a language, or without any for the empty text. -/
def set (k : Key) (language text : String) : Key :=
  if text.isEmpty then (k.remove language).2
  else
    { k with
      translations :=
        k.translations.put language ⟨language, ""⟩ fun t => { t with text := text } }

/-- The key without the index. -/
def plain (k : Key) : MissionText.Key := ⟨k.id, k.translations.items⟩

end Key

/-! ## Containers -/

namespace Container

/-- A container without keys. -/
def new (name : String) : Container := ⟨name, .empty⟩

def isEmpty (c : Container) : Bool := c.keys.isEmpty

/-- The key of an id. -/
def key? (c : Container) (id : String) : Option Key := c.keys.get? id

/-- The translation of a key into a language. -/
def translation? (c : Container) (key language : String) : Option Translation :=
  (c.key? key).bind (·.translation? language)

/-- All translations of a key. -/
def translations (c : Container) (key : String) : List Translation :=
  ((c.key? key).map fun k => k.translations.items).getD []

/-- The translation of a key into a language, and the container without it. -/
def remove (c : Container) (key language : String) : Option Translation × Container :=
  let (removed, keys) := c.keys.removeBelow key Key.isEmpty (·.remove language)
  (removed, { c with keys })

/-- The container with a text for a key in a language. -/
def set (c : Container) (key language text : String) : Container :=
  if text.isEmpty then (c.remove key language).2
  else { c with keys := c.keys.put key (.new key) (·.set language text) }

/-- The container without indexes. -/
def plain (c : Container) : MissionText.Container := ⟨c.name, c.keys.items.map Key.plain⟩

end Container

/-! ## Packages -/

namespace Package

/-- A package without containers. -/
def new (name : String) : Package := ⟨name, .empty⟩

def isEmpty (p : Package) : Bool := p.containers.isEmpty

/-- The container of a name. -/
def container? (p : Package) (name : String) : Option Container := p.containers.get? name

/-- The translation of a key into a language. -/
def translation? (p : Package) (container key language : String) : Option Translation :=
  (p.container? container).bind (·.translation? key language)

/-- All translations of a key. -/
def translations (p : Package) (container key : String) : List Translation :=
  ((p.container? container).map (·.translations key)).getD []

/-- The translation of a key into a language, and the package without it. -/
def remove (p : Package) (container key language : String) : Option Translation × Package :=
  let (removed, containers) :=
    p.containers.removeBelow container Container.isEmpty (·.remove key language)
  (removed, { p with containers })

/-- The package with a text for a key in a language. -/
def set (p : Package) (container key language text : String) : Package :=
  if text.isEmpty then (p.remove container key language).2
  else
    { p with containers := p.containers.put container (.new container) (·.set key language text) }

/-- The first key of an id. -/
def findKey? (p : Package) (id : String) : Option KeyMatch :=
  p.containers.items.findSome? fun c => (c.key? id).map fun k => ⟨p.name, c.name, k.plain⟩

/-- The package without indexes. -/
def plain (p : Package) : MissionText.Package := ⟨p.name, p.containers.items.map Container.plain⟩

end Package

/-! ## Projects -/

namespace Project

/-- A project without packages. -/
def new (name : String) : Project := ⟨name, .empty⟩

def isEmpty (p : Project) : Bool := p.packages.isEmpty

/-- The package of a name. -/
def package? (p : Project) (name : String) : Option Package := p.packages.get? name

/-- The container at a place. -/
def container? (p : Project) (package container : String) : Option Container :=
  (p.package? package).bind (·.container? container)

/-- The key at a place. -/
def key? (p : Project) (package container key : String) : Option Key :=
  (p.container? package container).bind (·.key? key)

/-- The translation at an address. -/
def translation? (p : Project) (a : Address) : Option Translation :=
  (p.package? a.package).bind (·.translation? a.container a.key a.language)

/-- All translations of a key. -/
def translations (p : Project) (package container key : String) : List Translation :=
  ((p.package? package).map (·.translations container key)).getD []

/-- The translation at an address, and the project without it. -/
def remove (p : Project) (a : Address) : Option Translation × Project :=
  let (removed, packages) :=
    p.packages.removeBelow a.package Package.isEmpty (·.remove a.container a.key a.language)
  (removed, { p with packages })

/-- The project with a text at an address, or without any for the empty text. -/
def set (p : Project) (a : Address) (text : String) : Project :=
  if text.isEmpty then (p.remove a).2
  else
    { p with
      packages :=
        p.packages.put a.package (.new a.package) (·.set a.container a.key a.language text) }

/-- The project after texts are set one after the other. -/
def setAll (p : Project) (writes : List (Address × String)) : Project :=
  writes.foldl (fun p w => p.set w.1 w.2) p

/-- The first key of an id. -/
def findKey? (p : Project) (id : String) : Option KeyMatch :=
  p.packages.items.findSome? (·.findKey? id)

/-- The project without indexes. -/
def plain (p : Project) : MissionText.Project := ⟨p.name, p.packages.items.map Package.plain⟩

end Project

end MissionText.Indexed
