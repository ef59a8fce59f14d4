/-
  What an exported document holds.

  * `Document.rows` are the segments of a document with the ids of their owners, in
    document order.
  * `entries_sources`: what is exported of a catalog are the keys that have a source
    text, in declaration order.
  * `IsExportOf` is what a document must hold to be the export of a catalog for a
    target language: one row for each of these keys and nothing else.
    `isExportOf_ofProject` says this of all reachable catalogs.
-/
import Mathlib.Data.List.Forall2
import MissionText.Proofs.Catalog.Search
import MissionText.Proofs.Xliff.Exchange

namespace MissionText

open Xliff (idOfName)

/-! ## Keys with a source text -/

/-- A key has a text under a tag, up to the case of the tag. -/
def Key.HasText (k : Key) (language text : String) : Prop :=
  ∃ t ∈ k.translations, sameFolded t.language language = true ∧ t.text = text

/-- A key has a source text. -/
def KeyMatch.hasSource (m : KeyMatch) : Bool :=
  m.key.translations.any (sameFolded ·.language originalTag)

theorem Key.WellFormed.text?_eq_some_iff {k : Key} (h : k.WellFormed) {language text : String} :
    k.text? language = some text ↔ k.HasText language text := by
  constructor
  · exact Key.exists_of_text?
  · rintro ⟨t, ht, hl, rfl⟩
    exact h.text?_of_same ht hl

theorem KeyMatch.isExportable_key (m : KeyMatch) : m.key.isExportable = m.hasSource :=
  List.isSome_find?

/-- The keys that are exported of a package. -/
theorem Package.entries_sources (g : Package) :
    g.sources.entries = g.entries.filter KeyMatch.hasSource := by
  have hcontainer (c : Container) :
      (c.keys.map fun k => (⟨g.name, c.name, k⟩ : KeyMatch)).filter KeyMatch.hasSource =
        c.sources.keys.map fun k => ⟨g.name, c.name, k⟩ := by
    rw [List.filter_map]
    congr 1
    exact List.filter_congr fun k _ => (KeyMatch.isExportable_key ⟨g.name, c.name, k⟩).symm
  have hdropped : ∀ c ∈ g.containers, c.isExportable = false →
      (c.sources.keys.map fun k => (⟨g.name, c.name, k⟩ : KeyMatch)) = [] := by
    intro c _ hc
    rw [List.map_eq_nil_iff]
    exact filter_eq_nil_iff_any.2 (Bool.eq_false_iff.1 hc)
  rw [entries, entries, List.filter_flatMap, sources, List.flatMap_map]
  simp only [hcontainer]
  exact flatMap_filter_of_nil hdropped

/-- **The keys that are exported** of a project are those with a source text. -/
theorem Project.entries_sources (p : Project) :
    p.sources.flatMap Package.entries = p.entries.filter KeyMatch.hasSource := by
  have hdropped : ∀ g ∈ p.packages, g.isExportable = false → g.sources.entries = [] := by
    intro g _ hg
    have hnone : g.containers.filter Container.isExportable = [] :=
      filter_eq_nil_iff_any.2 (Bool.eq_false_iff.1 hg)
    rw [Package.entries, Package.sources, hnone]
    rfl
  rw [sources, List.flatMap_map, flatMap_filter_of_nil hdropped, entries, List.filter_flatMap]
  exact List.flatMap_congr fun g _ => g.entries_sources

namespace Xliff

/-! ## Rows -/

/-- A segment with the ids of its unit and its group. -/
structure Row where
  group : String
  unit : String
  segment : Segment
  deriving Repr, DecidableEq

/-- The segments of a group with the ids of their units. -/
def Group.rows (g : Group) : List Row :=
  g.units.flatMap fun u => u.segments.map fun s => ⟨g.id, u.id, s⟩

namespace Document

/-- The segments of a document with the ids of their owners, in document order. -/
def rows (d : Document) : List Row := d.groups.flatMap Group.rows

theorem segmentCount_eq (d : Document) : d.segmentCount = d.rows.length := by
  simp [segmentCount, rows, Group.rows, List.length_flatMap, List.flatMap_assoc]

/-- A row says of a key what is exported of it. -/
structure IsRowOf (target : Option Language) (m : KeyMatch) (r : Row) : Prop where
  group : r.group = idOfName m.package
  unit : r.unit = idOfName m.container
  id : r.segment.id = idOfName m.key.id
  source : ∀ text, r.segment.source = text ↔ m.key.HasText originalTag text
  /-- There is no target text without a target language, or if the key has none. -/
  target : ∀ text, r.segment.target = some text ↔
    ∃ l, target = some l ∧ m.key.HasText l.tag text

/-- **A document is the export** of a catalog for a target language. -/
structure IsExportOf (p : Project) (target : Option Language) (d : Document) : Prop where
  /-- One row for each key with a source text, in declaration order. -/
  rows : List.Forall₂ (IsRowOf target) (p.entries.filter KeyMatch.hasSource) d.rows
  units_ne_nil : ∀ g ∈ d.groups, g.units ≠ []
  segments_ne_nil : ∀ g ∈ d.groups, ∀ u ∈ g.units, u.segments ≠ []
  segmentCount : d.segmentCount = (p.entries.filter KeyMatch.hasSource).length
  groups_ne_nil_iff : d.groups ≠ [] ↔ p.isExportable = true
  /-- What is written for a target language can be read if there is anything. -/
  readable : ∀ l, target = some l →
    ((∃ e, readText d.render = .ok e) ↔ p.isExportable = true)

/-- The row of a key with a source text. -/
def rowOf (target : Option Language) (m : KeyMatch) : Row :=
  ⟨idOfName m.package, idOfName m.container, Segment.ofKey target m.key⟩

variable (target : Option Language)

theorem rows_ofPackage (g : Package) :
    (Group.ofPackage target g).rows = g.entries.map (rowOf target) := by
  simp only [Group.rows, Group.ofPackage, Unit.ofContainer, List.flatMap_map, List.map_map,
    Package.entries, List.map_flatMap]
  rfl

/-- **The rows of an exported document.** -/
theorem rows_ofProject (p : Project) (source : Language) (version : Version) :
    (ofProject p source target version).rows =
      (p.entries.filter KeyMatch.hasSource).map (rowOf target) := by
  rw [rows, groups_ofProject, List.flatMap_map, ← p.entries_sources, List.map_flatMap]
  exact List.flatMap_congr fun g _ => rows_ofPackage target g

variable {p : Project}

theorem isRowOf_rowOf {m : KeyMatch} (h : m.key.WellFormed) (hm : m.hasSource = true) :
    IsRowOf target m (rowOf target m) := by
  constructor
  case group => rfl
  case unit => rfl
  case id => rfl
  case source =>
    intro text
    rw [← m.isExportable_key] at hm
    obtain ⟨t, ht⟩ := Option.isSome_iff_exists.1 hm
    have hsource : m.key.text? originalTag = some t.text :=
      congrArg (Option.map Translation.text) ht
    rw [← h.text?_eq_some_iff, hsource, Option.some.injEq, rowOf, Segment.ofKey, Key.source,
      hsource, Option.getD_some]
  case target =>
    intro text
    simp only [rowOf, Segment.ofKey, Option.bind_eq_some_iff, h.text?_eq_some_iff]

theorem wellFormed_of_mem_entries (h : p.WellFormed) {m : KeyMatch} (hm : m ∈ p.entries) :
    m.key.WellFormed := by
  simp only [Project.entries, Package.entries, List.mem_flatMap, List.mem_map] at hm
  obtain ⟨g, hg, c, hc, k, hk, rfl⟩ := hm
  exact ((h.each g hg).each c hc).each k hk

/-- **An exported document** holds one row for each key that has a source text, in
    declaration order, and nothing else; it can be read again if there is one. -/
theorem isExportOf_ofProject (h : p.Reachable) (source : Language) (version : Version) :
    IsExportOf p target (ofProject p source target version) := by
  have hgroups := groups_ofProject target p source version
  have hgroup : ∀ g ∈ (ofProject p source target version).groups,
      ∃ x ∈ p.packages, x.isExportable = true ∧ g = Group.ofPackage target x.sources := by
    intro g hg
    rw [hgroups, Project.sources, List.map_map] at hg
    obtain ⟨x, hx, rfl⟩ := List.mem_map.1 hg
    obtain ⟨hx, hexport⟩ := List.mem_filter.1 hx
    exact ⟨x, hx, hexport, rfl⟩
  have hnil : (ofProject p source target version).groups = [] ↔ ¬ p.isExportable = true := by
    rw [hgroups, List.map_eq_nil_iff, Project.sources, List.map_eq_nil_iff, filter_eq_nil_iff_any]
    rfl
  constructor
  case rows =>
    rw [rows_ofProject, List.forall₂_map_right_iff, List.forall₂_same]
    intro m hm
    obtain ⟨hm, hsource⟩ := List.mem_filter.1 hm
    exact isRowOf_rowOf target (wellFormed_of_mem_entries h.wellFormed hm) hsource
  case units_ne_nil =>
    intro g hg
    obtain ⟨x, -, hexport, rfl⟩ := hgroup g hg
    obtain ⟨c, hc, hexport⟩ := List.any_eq_true.1 hexport
    have hmem : c.sources ∈ x.sources.containers :=
      List.mem_map_of_mem (List.mem_filter.2 ⟨hc, hexport⟩)
    exact List.ne_nil_of_mem (List.mem_map_of_mem hmem)
  case segments_ne_nil =>
    intro g hg u hu
    obtain ⟨x, -, -, rfl⟩ := hgroup g hg
    obtain ⟨y, hy, rfl⟩ := List.mem_map.1 hu
    obtain ⟨c, hc, rfl⟩ := List.mem_map.1 hy
    obtain ⟨k, hk, hexport⟩ := List.any_eq_true.1 (List.mem_filter.1 hc).2
    exact List.ne_nil_of_mem (List.mem_map_of_mem (List.mem_filter.2 ⟨hk, hexport⟩))
  case segmentCount => rw [segmentCount_eq, rows_ofProject, List.length_map]
  case groups_ne_nil_iff => rw [ne_eq, hnil, not_not]
  case readable =>
    rintro l rfl
    have hread : readText (ofProject p source (some l) version).render =
        withGroups (ofProject p source (some l) version).filled :=
      (readUtf8_render _).trans (outcome_of_target rfl)
    have hfilled : (ofProject p source (some l) version).filled.groups =
        (ofProject p source (some l) version).groups := rfl
    rw [hread, withGroups, hfilled, ← not_iff_not, ← hnil, ← List.isEmpty_iff]
    split_ifs with hempty
    · simp [hempty]
    · simp [hempty]

/-- A project of which only the second key has a source text. -/
def oneSource : Project :=
  (((Project.new "My Mission").set ⟨"Main Pack", "intro", "hello", "German"⟩ "Hallo").set
    ⟨"main pack", "the end", " str  Bye ", "GERMAN"⟩ "Tschüs").set
    ⟨"Main Pack", "The End", " STR  bye ", "ORIGINAL"⟩ "Bye"

theorem isExportOf_oneSource :
    oneSource.Reachable ∧
      (ofProject oneSource .english (some .german) .v2_0).rows =
        [⟨"Main_Pack", "the_end", ⟨"str_Bye", "Bye", some "Tschüs"⟩⟩] ∧
      IsExportOf oneSource (some .german)
        (ofProject oneSource .english (some .german) .v2_0) := by
  have hreachable : oneSource.Reachable := (((Project.Reachable.new _).set _ _).set _ _).set _ _
  exact ⟨hreachable, by decide +kernel,
    isExportOf_ofProject (some .german) hreachable .english .v2_0⟩

end Document

end Xliff

end MissionText
