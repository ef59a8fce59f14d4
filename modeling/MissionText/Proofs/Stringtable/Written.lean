/-
  What the reader of stringtables finds in a written one.

  * `Project.legible` is the part of a catalog that can be read back: keys
    without an id are skipped, and tags lose their prefix.
  * `writes_shown`: the writes that a written catalog is read as are those of
    its legible part.  Tags may be `Container` or `Key`: such an element is
    taken for a container or a key, but one that has no id and no elements.
  * `readUtf8_render`: the outcome of reading a written catalog.
-/
import MissionText.Proofs.Catalog.Rebuild
import MissionText.Proofs.Xml.Layout
import MissionText.Proofs.Xml.Name
import MissionText.Stringtable

namespace MissionText

open Xml (localName IsTagName)

/-! ## The legible part -/

/-- The translation with its tag as it is read. -/
def Translation.legible (t : Translation) : Translation := ⟨localName t.language, t.text⟩

/-- The key with its tags as they are read. -/
def Key.legible (k : Key) : Key := ⟨k.id, k.translations.map Translation.legible⟩

/-- The container without the keys that are skipped. -/
def Container.legible (c : Container) : Container :=
  ⟨c.name, (c.keys.filter (!·.id.isEmpty)).map Key.legible⟩

/-- The package without the keys that are skipped. -/
def Package.legible (g : Package) : Package := ⟨g.name, g.containers.map Container.legible⟩

/-- The part of a catalog that can be read back. -/
def Project.legible (p : Project) : Project := ⟨p.name, p.packages.map Package.legible⟩

/-- No key is skipped and no tag has a prefix, so all of a catalog is legible. -/
theorem Project.legible_eq_self {p : Project} (hid : ∀ k ∈ p.keys, k.id ≠ "")
    (htag : ∀ k ∈ p.keys, ∀ t ∈ k.translations, localName t.language = t.language) :
    p.legible = p := by
  have hkey : ∀ k ∈ p.keys, k.legible = id k := by
    intro k hk
    have htranslations : k.translations.map Translation.legible = k.translations.map id :=
      List.map_congr_left fun t ht => by
        rw [Translation.legible, htag k hk t ht]
        rfl
    rw [Key.legible, htranslations, List.map_id]
    rfl
  have hcontainer : ∀ g ∈ p.packages, ∀ c ∈ g.containers, c.legible = id c := by
    intro g hg c hc
    have hmem : ∀ k ∈ c.keys, k ∈ p.keys := fun k hk => mem_keys.2 ⟨g, hg, c, hc, hk⟩
    have hfilter : c.keys.filter (!·.id.isEmpty) = c.keys :=
      List.filter_eq_self.2 fun k hk => by
        rw [String.isEmpty_eq_false_iff.2 (hid k (hmem k hk))]
        rfl
    rw [Container.legible, hfilter, List.map_congr_left fun k hk => hkey k (hmem k hk), List.map_id]
    rfl
  have hpackage : ∀ g ∈ p.packages, g.legible = id g := by
    intro g hg
    rw [Package.legible, List.map_congr_left (hcontainer g hg), List.map_id]
    rfl
  rw [legible, List.map_congr_left hpackage, List.map_id]

namespace Stringtable

open Xml

/-! ## Elements that are taken for others -/

theorem descendants_of_leaf {e : Element} (h : e.content.elements = []) (name : String) :
    e.descendants name = [] := by
  rw [Element.descendants, Content.descendants_eq_flatMap, h, List.flatMap_nil]

theorem keyWrites_of_no_attributes {e : Element} (h : e.attributes = [])
    (package container : String) : keyWrites package container e = [] := by
  have hid : e.value "ID" = "" := by
    rw [Element.value, Element.value?, h]
    rfl
  rw [keyWrites, hid]
  rfl

theorem elements_keyElement (k : Key) (depth : Nat) :
    ((keyElement k).shown depth).content.elements =
      k.translations.map fun t => (translationElement t).shown (depth + 1) := by
  rw [Element.elements_shown_ofElements rfl, List.map_map]
  rfl

/-- What is below a translation of a key is nothing. -/
theorem descendants_keyElement (k : Key) (depth : Nat) (name : String) :
    ∀ e ∈ ((keyElement k).shown depth).descendants name,
      e.attributes = [] ∧ e.content.elements = [] := by
  intro e he
  rw [Element.descendants, Content.descendants_eq_flatMap, elements_keyElement,
    List.flatMap_map, List.mem_flatMap] at he
  obtain ⟨t, -, he⟩ := he
  have hleaf : ((translationElement t).shown (depth + 1)).content.elements = [] :=
    Element.elements_shown_ofText t.language t.text [] (depth + 1)
  rcases List.mem_append.1 he with he | he
  · split at he
    · rw [List.mem_singleton.1 he]
      exact ⟨rfl, hleaf⟩
    · cases he
  · have hnone := descendants_of_leaf hleaf name
    rw [Element.descendants] at hnone
    rw [hnone] at he
    cases he

/-! ## Writes -/

theorem keyWrites_keyElement (package container : String) (k : Key) (depth : Nat) :
    keyWrites package container ((keyElement k).shown depth) =
      if k.id.isEmpty then []
      else k.legible.translations.map fun t => (⟨package, container, k.id, t.language⟩, t.text) := by
  have hid : ((keyElement k).shown depth).value "ID" = k.id := rfl
  have htext (t : Translation) (depth : Nat) :
      ((translationElement t).shown depth).allText = t.text := by
    rw [Element.allText_shown rfl, translationElement, Element.allText, Content.allText_ofText]
  rw [keyWrites, hid, elements_keyElement, Key.legible, List.map_map, List.map_map]
  congr 1
  refine List.map_congr_left fun t _ => ?_
  simp only [Function.comp_apply, htext]
  rfl

theorem flatMap_keyWrites_containerElement (package container : String) (c : Container)
    (depth : Nat) :
    (((containerElement c).shown depth).descendants "Key").flatMap
        (keyWrites package container) =
      c.legible.keys.flatMap fun k =>
        k.translations.map fun t => (⟨package, container, k.id, t.language⟩, t.text) := by
  have hkey : IsPlainName "Key" := by decide
  have hname : ∀ e ∈ (c.keys.filter (!·.isEmpty)).map keyElement, localName e.name = "Key" := by
    intro e he
    obtain ⟨k, -, rfl⟩ := List.mem_map.1 he
    exact hkey.localName_eq
  -- A translation with the tag `Key` is found too, but it has no id.
  have hbelow : ∀ e ∈ (c.keys.filter (!·.isEmpty)).map keyElement,
      ((e.shown (depth + 1)).descendants "Key").flatMap (keyWrites package container) = [] := by
    intro e he
    obtain ⟨k, -, rfl⟩ := List.mem_map.1 he
    rw [List.flatMap_eq_nil_iff]
    intro x hx
    exact keyWrites_of_no_attributes (descendants_keyElement k (depth + 1) "Key" x hx).1 _ _
  rw [Element.flatMap_descendants_shown rfl hname hbelow, List.flatMap_map]
  simp only [keyWrites_keyElement]
  have hempty : ∀ k ∈ c.keys, (!k.isEmpty) = false → (if k.id.isEmpty then [] else
      k.legible.translations.map fun t =>
        ((⟨package, container, k.id, t.language⟩ : Address), t.text)) = [] := by
    intro k _ hk
    have htranslations : k.translations = [] := by simpa [Key.isEmpty] using hk
    rw [Key.legible, htranslations]
    split <;> rfl
  have hskipped : ∀ k ∈ c.keys, (!k.id.isEmpty) = false → (if k.id.isEmpty then [] else
      k.legible.translations.map fun t =>
        ((⟨package, container, k.id, t.language⟩ : Address), t.text)) = [] := by
    intro k _ hk
    rw [if_pos (by simpa using hk)]
  rw [flatMap_filter_of_nil hempty, ← flatMap_filter_of_nil hskipped, Container.legible,
    List.flatMap_map]
  refine List.flatMap_congr fun k hk => ?_
  have hid : k.id.isEmpty = false := by simpa using (List.mem_filter.1 hk).2
  rw [hid, if_neg Bool.false_ne_true]
  rfl

/-- The translations of a `Container` element. -/
def containerWrites (package : String) (container : Element) : List (Address × String) :=
  (container.descendants "Key").flatMap (keyWrites package (container.value "name"))

theorem packageWrites_packageElement (g : Package) (depth : Nat) :
    packageWrites ((packageElement g).shown depth) =
      g.legible.containers.flatMap fun c => c.keys.flatMap fun k =>
        k.translations.map fun t => (⟨g.name, c.name, k.id, t.language⟩, t.text) := by
  have hlocal : localName "Container" = "Container" := IsPlainName.localName_eq (by decide)
  have hkey : localName "Key" ≠ "Container" := by
    rw [IsPlainName.localName_eq (by decide)]
    decide
  have hname : ∀ e ∈ (g.containers.filter (!·.isEmpty)).map containerElement,
      localName e.name = "Container" := by
    intro e he
    obtain ⟨c, -, rfl⟩ := List.mem_map.1 he
    exact hlocal
  -- A translation with the tag `Container` is found too, but nothing is below it.
  have hbelow : ∀ e ∈ (g.containers.filter (!·.isEmpty)).map containerElement,
      ((e.shown (depth + 1)).descendants "Container").flatMap (containerWrites g.name) = [] := by
    intro e he
    obtain ⟨c, -, rfl⟩ := List.mem_map.1 he
    rw [List.flatMap_eq_nil_iff]
    intro x hx
    rw [Element.descendants, Content.descendants_eq_flatMap, Element.elements_shown_ofElements rfl,
      List.flatMap_map, List.mem_flatMap] at hx
    obtain ⟨k, hk, hx⟩ := hx
    obtain ⟨k, -, rfl⟩ := List.mem_map.1 hk
    have hother : ((keyElement k).shown (depth + 1 + 1)).name ≠ "Container" := hkey
    rw [if_neg hother, List.nil_append] at hx
    have hleaf := (descendants_keyElement k (depth + 1 + 1) "Container" x hx).2
    rw [containerWrites, List.flatMap_eq_nil_iff]
    intro y hy
    rw [descendants_of_leaf hleaf] at hy
    cases hy
  have hempty : ∀ c ∈ g.containers, (!c.isEmpty) = false → (c.legible.keys.flatMap fun k =>
      k.translations.map fun t =>
        ((⟨g.name, c.name, k.id, t.language⟩ : Address), t.text)) = [] := by
    intro c _ hc
    have hkeys : c.keys = [] := by simpa [Container.isEmpty] using hc
    rw [Container.legible, hkeys]
    rfl
  have hwrites : packageWrites ((packageElement g).shown depth) =
      (((packageElement g).shown depth).descendants "Container").flatMap
        (containerWrites g.name) := rfl
  have hcontainer (c : Container) :
      containerWrites g.name ((containerElement c).shown (depth + 1)) =
      c.legible.keys.flatMap fun k =>
        k.translations.map fun t => (⟨g.name, c.name, k.id, t.language⟩, t.text) :=
    flatMap_keyWrites_containerElement g.name c.name c (depth + 1)
  rw [hwrites, Element.flatMap_descendants_shown rfl hname hbelow, List.flatMap_map]
  simp only [hcontainer]
  rw [flatMap_filter_of_nil hempty, Package.legible, List.flatMap_map]
  rfl

/-- **A written catalog is read as the writes of its legible part.** -/
theorem writes_shown (p : Project) : writes ((toElement p).shown 0) = p.legible.writes := by
  have hpackage : localName "Package" = "Package" := IsPlainName.localName_eq (by decide)
  have hnamed : ((toElement p).shown 0).named "Package" =
      ((p.packages.filter (!·.isEmpty)).map packageElement).map (Element.shown (0 + 1)) := by
    rw [Element.named, Element.elements_shown_ofElements rfl, List.filter_eq_self]
    intro e he
    obtain ⟨e', he', rfl⟩ := List.mem_map.1 he
    obtain ⟨g, -, rfl⟩ := List.mem_map.1 he'
    exact decide_eq_true hpackage
  have hempty : ∀ g ∈ p.packages, (!g.isEmpty) = false → (g.legible.containers.flatMap fun c =>
      c.keys.flatMap fun k => k.translations.map fun t =>
        ((⟨g.name, c.name, k.id, t.language⟩ : Address), t.text)) = [] := by
    intro g _ hg
    have hcontainers : g.containers = [] := by simpa [Package.isEmpty] using hg
    rw [Package.legible, hcontainers]
    rfl
  rw [writes, hnamed, List.map_map, List.flatMap_map]
  simp only [Function.comp_apply, packageWrites_packageElement]
  rw [flatMap_filter_of_nil hempty, Project.legible, Project.writes, List.flatMap_map]
  rfl

/-! ## Reading -/

theorem isPrintable_toElement {p : Project}
    (h : ∀ k ∈ p.keys, ∀ t ∈ k.translations, IsTagName t.language) :
    (toElement p).IsPrintable := by
  have hname : IsPlainName "name" := by decide
  have hid : IsPlainName "ID" := by decide
  have hproject : IsPlainName "Project" := by decide
  have hpackage : IsPlainName "Package" := by decide
  have hcontainer : IsPlainName "Container" := by decide
  have hkey : IsPlainName "Key" := by decide
  refine Element.isPrintable_mk hproject.isTagName
    (areAttributes_singleton hname.isAttributeKey p.name) ?_
  intro e he
  obtain ⟨g, hg, rfl⟩ := List.mem_map.1 he
  refine Element.isPrintable_mk hpackage.isTagName
    (areAttributes_singleton hname.isAttributeKey g.name) ?_
  intro e he
  obtain ⟨c, hc, rfl⟩ := List.mem_map.1 he
  refine Element.isPrintable_mk hcontainer.isTagName
    (areAttributes_singleton hname.isAttributeKey c.name) ?_
  intro e he
  obtain ⟨k, hk, rfl⟩ := List.mem_map.1 he
  refine Element.isPrintable_mk hkey.isTagName (areAttributes_singleton hid.isAttributeKey k.id) ?_
  intro e he
  obtain ⟨t, ht, rfl⟩ := List.mem_map.1 he
  have hmem : k ∈ p.keys := Project.mem_keys.2
    ⟨g, (List.mem_filter.1 hg).1, c, (List.mem_filter.1 hc).1, (List.mem_filter.1 hk).1⟩
  exact ⟨h k hmem t ht, List.forall_mem_nil _, trivial⟩

/-- **The outcome of reading a written catalog**, if its tags can be written:
    its legible part is written, address by address, into an empty catalog. -/
theorem readUtf8_render {p : Project}
    (h : ∀ k ∈ p.keys, ∀ t ∈ k.translations, IsTagName t.language) :
    readUtf8 (utf8 (render p)) =
      if ((Project.new p.name).setAll p.legible.writes).isEmpty then
        .error (.emptyProject p.name)
      else .ok ((Project.new p.name).setAll p.legible.writes) := by
  have hproject : localName "Project" = "Project" := IsPlainName.localName_eq (by decide)
  have hroot : ((toElement p).shown 0).name = "Project" := by
    rw [Element.name_shown]
    exact hproject
  have hvalue : ((toElement p).shown 0).value? "name" = some p.name := rfl
  rw [readUtf8, render, parseDocument_printIndented (isPrintable_toElement h)]
  simp only [Except.mapError, bind, Except.bind]
  rw [ofElement, if_neg (not_not.2 hroot), hvalue, Option.getD_some, writes_shown]
  dsimp only
  rw [Project.name_setAll]
  rfl

end Stringtable

end MissionText
