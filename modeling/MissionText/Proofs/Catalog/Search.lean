/-
  Search by id.

  * `Project.entries` are the keys of a catalog with their owners, in declaration
    order.  `findKey?_eq_find?_entries`: a search finds the first of them that has
    the id.
  * `findKey?_plain`: the search through the indexes of the containers finds the
    same.
  * `IsFirstMatch` is what a match must be: the first entry with the id, which is
    found again by its names.  `isFirstMatch_of_findKey?` says this of all
    reachable catalogs, and that nothing is found only if no key has the id.
-/
import MissionText.Proofs.Catalog.TextMap

namespace MissionText

/-! ## Entries -/

/-- The keys of a package with their owners, in declaration order. -/
def Package.entries (g : Package) : List KeyMatch :=
  g.containers.flatMap fun c => c.keys.map fun k => ⟨g.name, c.name, k⟩

/-- The keys of a project with their owners, in declaration order. -/
def Project.entries (p : Project) : List KeyMatch := p.packages.flatMap Package.entries

/-- The key has an id. -/
def KeyMatch.hasId (id : String) (m : KeyMatch) : Bool := sameFolded m.key.id id

theorem Package.findKey?_eq_find?_entries (g : Package) (id : String) :
    g.findKey? id = g.entries.find? (·.hasId id) := by
  rw [entries, List.find?_flatMap, findKey?]
  simp only [List.find?_map]
  rfl

/-- **A search finds the first entry** that has the id. -/
theorem Project.findKey?_eq_find?_entries (p : Project) (id : String) :
    p.findKey? id = p.entries.find? (·.hasId id) := by
  rw [entries, List.find?_flatMap, findKey?]
  simp only [Package.findKey?_eq_find?_entries]

/-! ## Through the indexes -/

theorem findSome?_congr {α β : Type} {f g : α → Option β} {xs : List α}
    (h : ∀ x ∈ xs, f x = g x) : xs.findSome? f = xs.findSome? g := by
  induction xs with
  | nil => rfl
  | cons x xs ih =>
    rw [List.findSome?_cons, List.findSome?_cons, h x List.mem_cons_self,
      ih fun y hy => h y (List.mem_cons_of_mem _ hy)]

namespace Indexed

theorem Package.findKey?_plain {g : Package} (h : g.Sound) (id : String) :
    g.plain.findKey? id = g.findKey? id := by
  rw [MissionText.Package.findKey?, plain, List.findSome?_map, findKey?]
  refine findSome?_congr fun c hc => ?_
  have hkey := Container.key?_plain id (h.wellFormed.each c hc)
  rw [Function.comp_apply, hkey, Option.map_map]
  rfl

namespace Project

/-- **The search through the indexes** finds what a search in the plain catalog
    finds. -/
theorem findKey?_plain {p : Project} (h : p.Sound) (id : String) :
    p.plain.findKey? id = p.findKey? id := by
  rw [MissionText.Project.findKey?, plain, List.findSome?_map, findKey?]
  exact findSome?_congr fun g hg => Package.findKey?_plain (h.wellFormed.each g hg) id

/-! ## Matches -/

/-- The first key of an id in declaration order, with the names that lead to it. -/
structure IsFirstMatch (p : Project) (id : String) (m : KeyMatch) : Prop where
  hasId : sameFolded m.key.id id = true
  /-- No key before it has the id. -/
  first : ∃ before after, p.plain.entries = before ++ m :: after ∧
    ∀ n ∈ before, sameFolded n.key.id id = false
  /-- The names lead back to the key. -/
  found : (p.key? m.package m.container m.key.id).map Key.plain = some m.key
  translations : p.translations m.package m.container m.key.id = m.key.translations

variable {p : Project}

theorem Sound.isFirstMatch (h : p.Sound) (hp : p.plain.WellFormed) {id : String} {m : KeyMatch}
    (hm : p.findKey? id = some m) : p.IsFirstMatch id m := by
  rw [← findKey?_plain h] at hm
  have hkey := (hp.findKey?_eq_some hm).2
  constructor
  case hasId => exact (hp.findKey?_eq_some hm).1
  case first =>
    rw [MissionText.Project.findKey?_eq_find?_entries] at hm
    obtain ⟨-, before, after, heq, hbefore⟩ := List.find?_eq_some_iff_append.1 hm
    refine ⟨before, after, heq, fun n hn => ?_⟩
    simpa [KeyMatch.hasId] using hbefore n hn
  case found =>
    have hsome := key?_plain h m.package m.container m.key.id
    rw [← hsome, hkey]
  case translations =>
    rw [← translations_plain h, MissionText.Project.translations_eq_key?, hkey]
    rfl

theorem Sound.isSome_findKey?_iff (h : p.Sound) (id : String) :
    (p.findKey? id).isSome = true ↔ ∃ m ∈ p.plain.entries, sameFolded m.key.id id = true := by
  rw [← findKey?_plain h, MissionText.Project.findKey?_eq_find?_entries, List.find?_isSome]
  rfl

/-- **A search by id is exact**: it finds a key if any key of the catalog has the
    id, and what it finds is the first such key. -/
theorem isFirstMatch_of_findKey? (h : p.Reachable) (id : String) :
    ((p.findKey? id).isSome = true ↔
      ∃ m ∈ p.plain.entries, sameFolded m.key.id id = true) ∧
    ∀ m, p.findKey? id = some m → p.IsFirstMatch id m :=
  ⟨h.sound.isSome_findKey?_iff id, fun _ hm => h.sound.isFirstMatch h.plain.wellFormed hm⟩

/-- A catalog with one id in two packages, of which the second comes first. -/
def twoPackages : Project :=
  (((new "Test").set ⟨"Second", "C", "other", originalTag⟩ "x").set
    ⟨"First", "c", "DUP", originalTag⟩ "a").set ⟨"second", "d", "Dup", originalTag⟩ "b"

theorem isFirstMatch_twoPackages :
    twoPackages.Reachable ∧
      twoPackages.findKey? "dup" = some ⟨"Second", "d", ⟨"Dup", [⟨originalTag, "b"⟩]⟩⟩ ∧
      twoPackages.IsFirstMatch "dup" ⟨"Second", "d", ⟨"Dup", [⟨originalTag, "b"⟩]⟩⟩ := by
  have hreachable : twoPackages.Reachable := (((Reachable.new _).set _ _).set _ _).set _ _
  have hfound : twoPackages.findKey? "dup" =
      some ⟨"Second", "d", ⟨"Dup", [⟨originalTag, "b"⟩]⟩⟩ := by
    decide +kernel
  exact ⟨hreachable, hfound, (isFirstMatch_of_findKey? hreachable "dup").2 _ hfound⟩

end Project

end Indexed

end MissionText
