/-
  What a stringtable is read as.

  A stringtable is a list of entries: each child element of each `Key` at any depth
  of each `Container` at any depth of each `Package`, in document order.  The last
  entry for an address counts, and an entry without text deletes.

  * `Content.preorder` are the elements at any depth in document order, and
    `descendants_eq_filter` says that those of one name are found in this order.
  * `writes_eq_entries`: the reader sets the entries one after the other.
  * `textAt_setAll_new`: of what is set, the last text for an address is found.
  * `IsReadFrom` is the catalog of a document; `readUtf8_isReadFrom` says when there
    is one, and that it is what is read.
-/
import Mathlib.Data.List.Basic
import MissionText.Proofs.Catalog.Lookup
import MissionText.Proofs.Xml.Layout
import MissionText.Proofs.Xml.Name
import MissionText.Stringtable

namespace MissionText

/-! ## Elements in document order -/

namespace Xml

/-- The elements at any depth, outer ones before those in them. -/
def Content.preorder : Content → List Element
  | nil => []
  | text _ rest => rest.preorder
  | element name attributes children rest =>
    ⟨name, attributes, children⟩ :: (children.preorder ++ rest.preorder)

/-- **The elements of a name** are found in document order. -/
theorem Content.descendants_eq_filter (name : String) (c : Content) :
    c.descendants name = c.preorder.filter (·.name = name) := by
  induction c with
  | nil => rfl
  | text piece rest ih => exact ih
  | element n attributes children rest ihchildren ihrest =>
    rw [descendants, preorder, ihchildren, ihrest, List.filter_cons, List.filter_append]
    by_cases hn : n = name
    · simp [hn]
    · simp [hn]

end Xml

namespace Stringtable

open Xml

/-! ## Entries -/

/-- The element is a key that is not skipped. -/
def isKey (e : Element) : Bool := e.name = "Key" && e.value "ID" != ""

/-- The entries of a stringtable, in document order. -/
def entries (root : Element) : List (Address × String) :=
  (root.content.elements.filter (·.name = "Package")).flatMap fun package =>
    (package.content.preorder.filter (·.name = "Container")).flatMap fun container =>
      (container.content.preorder.filter isKey).flatMap fun key =>
        key.content.elements.map fun translation =>
          (⟨package.value "name", container.value "name", key.value "ID", translation.name⟩,
            translation.allText)

theorem flatMap_keyWrites (package container : String) (es : List Element) :
    (es.filter (·.name = "Key")).flatMap (keyWrites package container) =
      (es.filter isKey).flatMap fun key =>
        key.content.elements.map fun t => (⟨package, container, key.value "ID", t.name⟩,
          t.allText) := by
  induction es with
  | nil => rfl
  | cons e es ih =>
    by_cases hkey : e.name = "Key"
    · by_cases hid : e.value "ID" = ""
      · simp [isKey, hkey, hid, ih, keyWrites]
      · simp [isKey, hkey, hid, ih, keyWrites]
    · simp [isKey, hkey, ih]

/-- **The reader sets the entries.** -/
theorem writes_eq_entries (root : Element) : writes root = entries root := by
  rw [writes, entries, Element.named]
  refine List.flatMap_congr fun package _ => ?_
  simp only [packageWrites, Element.descendants, Content.descendants_eq_filter, flatMap_keyWrites]

/-- The last text for an address. -/
def lastText? (a : Address) (ws : List (Address × String)) : Option String :=
  (writesTo a ws).getLast?.map Translation.text

/-- **What is found after texts are set** is the last one for an address, if it is not
    empty. -/
theorem textAt_setAll_new (name : String) (ws : List (Address × String)) (a : Address) :
    ((Project.new name).setAll ws).textAt a = (lastText? a ws).filter (· ≠ "") := by
  rw [Project.textAt_setAll (Project.wellFormed_new name), lastText?]
  rcases (writesTo a ws).getLast? with _ | t
  · rfl
  · rw [Option.map_some, filter_ne_empty]
    simp only [String.isEmpty_iff]

/-! ## Catalogs of documents -/

/-- All entries of a stringtable are deleted: the last one for every address has no
    text. -/
def AllDeleted (root : Element) : Prop :=
  ∀ a text, lastText? a (entries root) = some text → text = ""

/-- The catalog is that of a root element. -/
structure IsReadFrom (root : Element) (p : Project) : Prop where
  name : p.name = (root.value? "name").getD defaultProjectName
  /-- The last entry for an address counts, if it has a text. -/
  textAt : ∀ a, p.textAt a = (lastText? a (entries root)).filter (· ≠ "")
  packages : ∀ g ∈ p.packages, g.isEmpty = false
  containers : ∀ g ∈ p.packages, ∀ c ∈ g.containers, c.isEmpty = false
  keys : ∀ g ∈ p.packages, ∀ c ∈ g.containers, ∀ k ∈ c.keys, k.isEmpty = false

/-- The catalog that is made of a root element, be it empty or not. -/
def catalogOf (root : Element) : Project :=
  (Project.new ((root.value? "name").getD defaultProjectName)).setAll (entries root)

theorem isReadFrom_catalogOf (root : Element) : IsReadFrom root (catalogOf root) := by
  have hwell : (catalogOf root).WellFormed := (Project.wellFormed_new _).setAll _
  refine ⟨Project.name_setAll _ _, textAt_setAll_new _ _, hwell.full, ?_, ?_⟩
  · intro g hg
    exact (hwell.each g hg).full
  · intro g hg c hc
    exact ((hwell.each g hg).each c hc).full

theorem isEmpty_catalogOf_iff (root : Element) :
    (catalogOf root).isEmpty = true ↔ AllDeleted root := by
  have hwell : (catalogOf root).WellFormed := (Project.wellFormed_new _).setAll _
  rw [hwell.isEmpty_iff_textAt]
  simp only [(isReadFrom_catalogOf root).textAt, AllDeleted, Option.filter_eq_none_iff]
  simp

theorem readUtf8_of_root {bs : Bytes} {root : Element} (hparse : parseDocument bs = .ok root)
    (hroot : root.name = "Project") :
    readUtf8 bs =
      if (catalogOf root).isEmpty then .error (.emptyProject (catalogOf root).name)
      else .ok (catalogOf root) := by
  have hread : readUtf8 bs = ofElement root := by
    rw [readUtf8, hparse]
    rfl
  rw [hread, ofElement, if_neg (not_not.2 hroot), writes_eq_entries]
  rfl

/-- **A stringtable is read as its last entries**: there is an error exactly if all of
    them are deleted, and else the catalog has the last text for every address, and
    nothing that is empty. -/
theorem readUtf8_isReadFrom {bs : Bytes} {root : Element} (hparse : parseDocument bs = .ok root)
    (hroot : root.name = "Project") :
    (readUtf8 bs = .error (.emptyProject ((root.value? "name").getD defaultProjectName)) ↔
        AllDeleted root) ∧
      (¬ AllDeleted root → ∃ p, readUtf8 bs = .ok p ∧ IsReadFrom root p) := by
  have hread := readUtf8_of_root hparse hroot
  have hname : (catalogOf root).name = (root.value? "name").getD defaultProjectName :=
    (isReadFrom_catalogOf root).name
  rw [hname] at hread
  by_cases hempty : AllDeleted root
  · rw [if_pos ((isEmpty_catalogOf_iff root).2 hempty)] at hread
    exact ⟨iff_of_true hread hempty, fun hne => absurd hempty hne⟩
  · rw [if_neg (mt (isEmpty_catalogOf_iff root).1 hempty)] at hread
    refine ⟨iff_of_false ?_ hempty, fun _ => ⟨catalogOf root, hread, isReadFrom_catalogOf root⟩⟩
    rw [hread]
    exact fun h => nomatch h

/-- A container in another one, whose key is one of both, and a later container of the
    same name in another case, where a text of that key is deleted. -/
def sections : Element :=
  ⟨"Project", [("name", "M")], .ofElements [
    ⟨"Package", [("name", "P")], .ofElements [
      ⟨"Container", [("name", "C")], .ofElements [
        ⟨"Key", [("ID", "k")], .ofElements [
          ⟨"Original", [], .ofText "a"⟩, ⟨"German", [], .ofText "b"⟩]⟩,
        ⟨"Container", [("name", "D")], .ofElements [
          ⟨"Key", [("ID", "K")], .ofElements [⟨"original", [], .ofText "c"⟩]⟩]⟩]⟩,
      ⟨"Container", [("name", "c")], .ofElements [
        ⟨"Key", [("ID", "K")], .ofElements [⟨"GERMAN", [], .nil⟩]⟩]⟩]⟩]⟩

theorem isPrintable_sections : sections.IsPrintable := by
  have hname : IsPlainName "name" := by decide
  have hid : IsPlainName "ID" := by decide
  have hnamed := areAttributes_singleton hname.isAttributeKey
  have hkey := areAttributes_singleton hid.isAttributeKey
  have hnone : AreAttributes [] := List.forall_mem_nil _
  simp only [sections, Element.IsPrintable, Content.ofElements, Content.ofText,
    Content.IsPrintable, hnamed, hkey, hnone, true_and, and_true]
  decide

theorem readUtf8_isReadFrom_sections :
    parseDocument (utf8 (printDocument sections)) = .ok sections ∧ sections.name = "Project" ∧
      ∃ p, readUtf8 (utf8 (printDocument sections)) = .ok p ∧ IsReadFrom sections p ∧
        p.textAt ⟨"P", "C", "k", "Original"⟩ = some "c" ∧
        p.textAt ⟨"P", "C", "k", "German"⟩ = none := by
  have hparse : parseDocument (utf8 (printDocument sections)) = .ok sections :=
    parseDocument_printDocument isPrintable_sections
  have hlast : lastText? ⟨"P", "C", "k", "Original"⟩ (entries sections) = some "c" := by
    decide +kernel
  have hdeleted : lastText? ⟨"P", "C", "k", "German"⟩ (entries sections) = some "" := by
    decide +kernel
  have hsome : ¬ AllDeleted sections := fun hall => absurd (hall _ _ hlast) (by decide)
  obtain ⟨p, hp, hread⟩ := (readUtf8_isReadFrom hparse rfl).2 hsome
  refine ⟨hparse, rfl, p, hp, hread, ?_, ?_⟩
  · rw [hread.textAt, hlast]
    rfl
  · rw [hread.textAt, hdeleted]
    rfl

end Stringtable

end MissionText
