/-
  Questions about a whole catalog.

  * `findKey?` looks for a key by its id alone, in declaration order, and tells
    which package and container it belongs to.
  * `languages` lists the language tags in the order in which they first occur.
-/
import MissionText.Catalog.Basic

namespace MissionText

/-- A key with the names of the package and the container that own it. -/
structure KeyMatch where
  package : String
  container : String
  key : Key
  deriving Repr, DecidableEq

/-- The first key of an id in a package. -/
def Package.findKey? (p : Package) (id : String) : Option KeyMatch :=
  p.containers.findSome? fun c => (c.key? id).map fun k => ⟨p.name, c.name, k⟩

/-- The first key of an id in a project. -/
def Project.findKey? (p : Project) (id : String) : Option KeyMatch :=
  p.packages.findSome? (·.findKey? id)

/-- A tag put last unless a listed one differs from it in ASCII case only. -/
def addLanguage (seen : List String) (language : String) : List String :=
  if seen.any (sameAscii · language) then seen else seen ++ [language]

/-- The language tags of a project. -/
def Project.languages (p : Project) : List String :=
  (p.keys.flatMap fun k => k.translations.map Translation.language).foldl addLanguage []

end MissionText
