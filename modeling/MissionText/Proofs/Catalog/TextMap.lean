/-
  A catalog is a finite map.

  Its keys are addresses with all four parts lower-cased, its values texts.
  Setting a text inserts it, or erases the entry if the text is empty, and a
  removal erases the entry.

  * `Project.Agrees`: a catalog has the texts of a map.  `Agrees.set` is what one
    write preserves.
  * `Indexed.Project.Represents`: every question about a catalog has the answer
    that the map gives.  `represents_textMap` says this of all runs of writes and
    removals.
-/
import Mathlib.Data.Finmap
import MissionText.Proofs.Catalog.Indexed
import MissionText.Proofs.Catalog.Lookup

namespace MissionText

/-! ## The map -/

/-- An address with its parts lower-cased. -/
def Address.folded (a : Address) : Address :=
  ⟨lowerCased a.package, lowerCased a.container, lowerCased a.key, lowerCased a.language⟩

/-- The names on the way to a key. -/
def Address.path (a : Address) : String × String × String := (a.package, a.container, a.key)

/-- Texts by folded address. -/
abbrev TextMap := Finmap fun _ : Address => String

/-- A change of a catalog. -/
inductive Operation where
  | set (a : Address) (text : String)
  | remove (a : Address)
  deriving Repr, DecidableEq

namespace Operation

/-- The map after a change. -/
def onMap : Operation → TextMap → TextMap
  | set a text, M => if text.isEmpty then M.erase a.folded else M.insert a.folded text
  | remove a, M => M.erase a.folded

/-- The catalog after a change. -/
def onProject : Operation → Project → Project
  | set a text, p => p.set a text
  | remove a, p => p.erase a

/-- The catalog with indexes after a change. -/
def onIndexed : Operation → Indexed.Project → Indexed.Project
  | set a text, p => p.set a text
  | remove a, p => (p.remove a).2

end Operation

theorem Address.folded_eq_iff {a b : Address} : a.folded = b.folded ↔ a.same b = true := by
  simp only [folded, Address.mk.injEq, same, Bool.and_eq_true, sameFolded_iff]

/-! ## Agreement -/

namespace Project

/-- The catalog has the texts of the map. -/
structure Agrees (p : Project) (M : TextMap) : Prop where
  lookup : ∀ a : Address, p.textAt a = M.lookup a.folded
  folded : ∀ e ∈ M, ∃ a : Address, a.folded = e

variable {p : Project} {M : TextMap}

theorem agrees_new (name : String) : (new name).Agrees ∅ :=
  ⟨fun _ => rfl, fun _ he => absurd he Finmap.notMem_empty⟩

/-- **A write keeps a catalog in agreement** with the map. -/
theorem Agrees.set (h : p.Agrees M) (hp : p.WellFormed) (a : Address) (text : String) :
    (p.set a text).Agrees ((Operation.set a text).onMap M) := by
  constructor
  · intro b
    rw [textAt_set a text hp, h.lookup b, Operation.onMap]
    by_cases hab : a.folded = b.folded
    · rw [if_pos (Address.folded_eq_iff.1 hab), hab]
      split_ifs
      · rw [Finmap.lookup_erase]
      · rw [Finmap.lookup_insert]
    · rw [if_neg fun hsame => hab (Address.folded_eq_iff.2 hsame)]
      split_ifs
      · rw [Finmap.lookup_erase_ne (Ne.symm hab)]
      · rw [Finmap.lookup_insert_of_ne M (Ne.symm hab)]
  · intro e he
    rw [Operation.onMap] at he
    split_ifs at he
    · exact h.folded e (Finmap.mem_erase.1 he).2
    · rcases Finmap.mem_insert.1 he with rfl | he
      · exact ⟨a, rfl⟩
      · exact h.folded e he

theorem Agrees.apply (h : p.Agrees M) (hp : p.WellFormed) (o : Operation) :
    (o.onProject p).Agrees (o.onMap M) := by
  cases o with
  | set a text => exact h.set hp a text
  | remove a => exact h.set hp a ""

theorem Agrees.mem_iff (h : p.Agrees M) (a : Address) :
    a.folded ∈ M ↔ (p.textAt a).isSome = true := by
  rw [h.lookup, Finmap.lookup_isSome]

/-- An entry of the map is a text at some address. -/
theorem Agrees.exists_iff (h : p.Agrees M) (P : Address → Prop) :
    (∃ e ∈ M, P e) ↔ ∃ a : Address, (p.textAt a).isSome = true ∧ P a.folded := by
  constructor
  · rintro ⟨e, he, hP⟩
    obtain ⟨a, rfl⟩ := h.folded e he
    exact ⟨a, (h.mem_iff a).1 he, hP⟩
  · rintro ⟨a, ha, hP⟩
    exact ⟨a.folded, (h.mem_iff a).2 ha, hP⟩

end Project

/-! ## Nodes of well-formed catalogs -/

theorem Siblings.Distinct.lowerCased_ne {α : Type} [Named α] {xs : List α} (h : Distinct xs) :
    xs.Pairwise fun x y => lowerCased (Named.name x) ≠ lowerCased (Named.name y) := by
  refine h.imp ?_
  intro x y hxy hsame
  rw [sameFolded_iff.2 hsame] at hxy
  cases hxy

namespace Project

variable {p : Project} {M : TextMap}

/-! ## Lookups -/

/-- The container at a place in a project. -/
def container? (p : Project) (package container : String) : Option Container :=
  (p.package? package).bind (·.container? container)

theorem key?_eq_container? (p : Project) (package container id : String) :
    p.key? package container id = (p.container? package container).bind (·.key? id) := by
  rw [key?, container?, Option.bind_assoc]
  rfl

theorem textAt_eq_container? (p : Project) (a : Address) :
    p.textAt a = (p.container? a.package a.container).bind (·.text? a.key a.language) := by
  rw [textAt, container?, Option.bind_assoc]
  rfl

theorem Agrees.isSome_package? (h : p.Agrees M) (hp : p.WellFormed) (package : String) :
    (p.package? package).isSome = true ↔ ∃ e ∈ M, e.package = lowerCased package := by
  rw [h.exists_iff]
  constructor
  · intro hsome
    obtain ⟨g, hg⟩ := Option.isSome_iff_exists.1 hsome
    have hmem := Siblings.mem_of_find? hg
    obtain ⟨container, id, language, htext⟩ := (hp.each g hmem).exists_text? (hp.full g hmem)
    exact ⟨⟨package, container, id, language⟩, by rwa [textAt, hg], rfl⟩
  · rintro ⟨a, ha, hname⟩
    have hsame : sameFolded a.package package = true := sameFolded_iff.2 hname
    have hpackage := Option.isSome_of_isSome_bind ha
    rwa [package?, Siblings.find?_congr hsame] at hpackage

theorem Agrees.isSome_container? (h : p.Agrees M) (hp : p.WellFormed)
    (package container : String) :
    (p.container? package container).isSome = true ↔
      ∃ e ∈ M, e.package = lowerCased package ∧ e.container = lowerCased container := by
  rw [h.exists_iff]
  constructor
  · intro hsome
    obtain ⟨c, hc⟩ := Option.isSome_iff_exists.1 hsome
    obtain ⟨g, hg, hfind⟩ := Option.bind_eq_some_iff.1 hc
    have hgwell := hp.each g (Siblings.mem_of_find? hg)
    have hmem := Siblings.mem_of_find? hfind
    obtain ⟨id, language, htext⟩ := (hgwell.each c hmem).exists_text? (hgwell.full c hmem)
    refine ⟨⟨package, container, id, language⟩, ?_, rfl, rfl⟩
    rwa [textAt_eq_container?, hc]
  · rintro ⟨a, ha, hpackage, hcontainer⟩
    rw [textAt_eq_container?] at ha
    have hfound := Option.isSome_of_isSome_bind ha
    have hp : sameFolded a.package package = true := sameFolded_iff.2 hpackage
    have hc : sameFolded a.container container = true := sameFolded_iff.2 hcontainer
    simpa only [container?, package?, Package.container?, Siblings.find?_congr hp,
      Siblings.find?_congr hc] using hfound

theorem Agrees.isSome_key? (h : p.Agrees M) (hp : p.WellFormed) (package container id : String) :
    (p.key? package container id).isSome = true ↔
      ∃ e ∈ M, e.path = (lowerCased package, lowerCased container, lowerCased id) := by
  rw [h.exists_iff]
  constructor
  · intro hsome
    obtain ⟨k, hk⟩ := Option.isSome_iff_exists.1 hsome
    obtain ⟨g, hg, hfind⟩ := Option.bind_eq_some_iff.1 hk
    obtain ⟨c, hc, hfind⟩ := Option.bind_eq_some_iff.1 hfind
    have hcwell := (hp.each g (Siblings.mem_of_find? hg)).each c (Siblings.mem_of_find? hc)
    have hmem := Siblings.mem_of_find? hfind
    obtain ⟨language, htext⟩ := (hcwell.each k hmem).exists_text? (hcwell.full k hmem)
    refine ⟨⟨package, container, id, language⟩, ?_, rfl⟩
    rwa [textAt_eq_key?, hk]
  · rintro ⟨a, ha, hpath⟩
    obtain ⟨hpackage, hrest⟩ := Prod.mk.inj hpath
    obtain ⟨hcontainer, hid⟩ := Prod.mk.inj hrest
    rw [textAt_eq_key?] at ha
    have hfound := Option.isSome_of_isSome_bind ha
    have hp : sameFolded a.package package = true := sameFolded_iff.2 hpackage
    have hc : sameFolded a.container container = true := sameFolded_iff.2 hcontainer
    have hk : sameFolded a.key id = true := sameFolded_iff.2 hid
    simpa only [key?, package?, Package.key?, Package.container?, Container.key?,
      Siblings.find?_congr hp, Siblings.find?_congr hc, Siblings.find?_congr hk] using hfound

/-! ## All translations of a key -/

theorem WellFormed.nodup_translations (h : p.WellFormed) (package container id : String) :
    ((p.translations package container id).map fun t => lowerCased t.language).Nodup := by
  rw [translations_eq_key?]
  rcases hk : p.key? package container id with _ | k
  · exact List.nodup_nil
  · exact List.pairwise_map.2 (h.key? hk).distinct.lowerCased_ne

theorem Agrees.mem_translations (h : p.Agrees M) (hp : p.WellFormed)
    (package container id language text : String) :
    (language, text) ∈
        (p.translations package container id).map (fun t => (lowerCased t.language, t.text)) ↔
      M.lookup ⟨lowerCased package, lowerCased container, lowerCased id, language⟩ =
        some text := by
  have htext (l : String) : p.textAt ⟨package, container, id, l⟩ =
      (p.key? package container id).bind (·.text? l) := textAt_eq_key? p _
  have hlookup (l : String) : p.textAt ⟨package, container, id, l⟩ =
      M.lookup ⟨lowerCased package, lowerCased container, lowerCased id, lowerCased l⟩ :=
    h.lookup _
  rw [translations_eq_key?, List.mem_map]
  constructor
  · rintro ⟨t, ht, heq⟩
    obtain ⟨rfl, rfl⟩ := Prod.mk.inj heq
    rcases hk : p.key? package container id with _ | k
    · rw [hk] at ht
      cases ht
    · rw [hk] at ht
      rw [← hlookup, htext, hk]
      exact (hp.key? hk).text?_of_mem ht
  · intro hsome
    -- The entry was made at some address, whose tag need not be lower-cased.
    obtain ⟨a, ha⟩ := h.folded _ (Finmap.mem_iff.2 ⟨text, hsome⟩)
    have hl : lowerCased a.language = language := congrArg Address.language ha
    rw [← hl, ← hlookup, htext] at hsome
    obtain ⟨k, hk, hfound⟩ := Option.bind_eq_some_iff.1 hsome
    obtain ⟨t, ht, hname, rfl⟩ := Key.exists_of_text? hfound
    rw [hk]
    exact ⟨t, ht, by rw [sameFolded_iff.1 hname, hl]⟩

/-! ## The number of keys -/

/-- The folded names on the way to each key. -/
def paths (p : Project) : List (String × String × String) :=
  p.packages.flatMap fun g => g.containers.flatMap fun c => c.keys.map fun k =>
    (lowerCased g.name, lowerCased c.name, lowerCased k.id)

theorem length_paths (p : Project) : p.paths.length = p.keyCount := by
  simp [paths, keyCount, keys, List.length_flatMap]

theorem mem_paths {q : String × String × String} :
    q ∈ p.paths ↔ ∃ g ∈ p.packages, ∃ c ∈ g.containers, ∃ k ∈ c.keys,
      (lowerCased g.name, lowerCased c.name, lowerCased k.id) = q := by
  simp only [paths, List.mem_flatMap, List.mem_map]

theorem WellFormed.nodup_paths (h : p.WellFormed) : p.paths.Nodup := by
  have hkeys (g : Package) (c : Container) (hc : c.WellFormed) : (c.keys.map fun k =>
      (lowerCased g.name, lowerCased c.name, lowerCased k.id)).Nodup := by
    refine List.pairwise_map.2 (hc.distinct.lowerCased_ne.imp ?_)
    intro k k' hne heq
    exact hne (Prod.mk.inj (Prod.mk.inj heq).2).2
  have hcontainers (g : Package) (hg : g.WellFormed) : (g.containers.flatMap fun c =>
      c.keys.map fun k => (lowerCased g.name, lowerCased c.name, lowerCased k.id)).Nodup := by
    refine List.nodup_flatMap.2 ⟨fun c hc => hkeys g c (hg.each c hc), ?_⟩
    refine hg.distinct.lowerCased_ne.imp ?_
    intro c c' hne q hq hq'
    obtain ⟨k, -, rfl⟩ := List.mem_map.1 hq
    obtain ⟨k', -, heq⟩ := List.mem_map.1 hq'
    exact hne (Prod.mk.inj (Prod.mk.inj heq).2).1.symm
  refine List.nodup_flatMap.2 ⟨fun g hg => hcontainers g (h.each g hg), ?_⟩
  refine h.distinct.lowerCased_ne.imp ?_
  intro g g' hne q hq hq'
  simp only [List.mem_flatMap, List.mem_map] at hq hq'
  obtain ⟨c, -, k, -, rfl⟩ := hq
  obtain ⟨c', -, k', -, heq⟩ := hq'
  exact hne (Prod.mk.inj heq).1.symm

/-- **The number of keys** is that of the paths in the map. -/
theorem Agrees.keyCount_eq (h : p.Agrees M) (hp : p.WellFormed) :
    p.keyCount = (M.keys.image Address.path).card := by
  have hpaths : p.paths.toFinset = M.keys.image Address.path := by
    ext q
    rw [List.mem_toFinset, mem_paths, Finset.mem_image]
    constructor
    · rintro ⟨g, hg, c, hc, k, hk, rfl⟩
      have hsome : (p.key? g.name c.name k.id).isSome = true := by
        have hkey := p.key?_eq_locate? ⟨g.name, c.name, k.id, originalTag⟩
        rw [hp.locate?_of_mem hg hc hk] at hkey
        rw [hkey]
        rfl
      obtain ⟨e, he, hpath⟩ := (h.isSome_key? hp g.name c.name k.id).1 hsome
      exact ⟨e, Finmap.mem_keys.2 he, hpath⟩
    · rintro ⟨e, he, rfl⟩
      obtain ⟨a, rfl⟩ := h.folded e (Finmap.mem_keys.1 he)
      have hsome := (h.isSome_key? hp a.package a.container a.key).2
        ⟨a.folded, Finmap.mem_keys.1 he, rfl⟩
      obtain ⟨k, hk⟩ := Option.isSome_iff_exists.1 hsome
      obtain ⟨g, hg, hk⟩ := Option.bind_eq_some_iff.1 hk
      obtain ⟨c, hc, hk⟩ := Option.bind_eq_some_iff.1 hk
      refine ⟨g, Siblings.mem_of_find? hg, c, Siblings.mem_of_find? hc, k,
        Siblings.mem_of_find? hk, ?_⟩
      have hgname := sameFolded_iff.1 (Siblings.name_of_find? hg)
      have hcname := sameFolded_iff.1 (Siblings.name_of_find? hc)
      have hkname := sameFolded_iff.1 (Siblings.name_of_find? hk)
      exact Prod.ext hgname (Prod.ext hcname hkname)
  rw [← hpaths, List.toFinset_card_of_nodup hp.nodup_paths, length_paths]

end Project

/-! ## Catalogs with indexes -/

namespace Indexed.Project

/-- Every question about the catalog has the answer of the map. -/
structure Represents (p : Project) (M : TextMap) : Prop where
  /-- At every level the index is exact, names are distinct and nothing is empty. -/
  sound : p.Sound
  /-- The text at an address, in any case, is that of the map. -/
  text : ∀ a, (p.translation? a).map Translation.text = M.lookup a.folded
  language : ∀ a t, p.translation? a = some t → lowerCased t.language = lowerCased a.language
  /-- The translations of a key are the entries of the map for it, each once. -/
  mem_translations : ∀ package container key language text,
    (language, text) ∈
        (p.translations package container key).map (fun t => (lowerCased t.language, t.text)) ↔
      M.lookup ⟨lowerCased package, lowerCased container, lowerCased key, language⟩ = some text
  nodup_translations : ∀ package container key,
    ((p.translations package container key).map fun t => lowerCased t.language).Nodup
  /-- A removal takes away the entry of the map, if there is one. -/
  removed : ∀ a, (p.remove a).1.map Translation.text = M.lookup a.folded
  isSome_package? : ∀ package,
    (p.package? package).isSome = true ↔ ∃ e ∈ M, e.package = lowerCased package
  isSome_container? : ∀ package container, (p.container? package container).isSome = true ↔
    ∃ e ∈ M, e.package = lowerCased package ∧ e.container = lowerCased container
  isSome_key? : ∀ package container key, (p.key? package container key).isSome = true ↔
    ∃ e ∈ M, e.path = (lowerCased package, lowerCased container, lowerCased key)
  keyCount : p.plain.keyCount = (M.keys.image Address.path).card
  /-- Without an entry there is nothing to delete, and nothing changes. -/
  unchanged : ∀ a, M.lookup a.folded = none → p.set a "" = p ∧ p.remove a = (none, p)

variable {p : Project} {M : TextMap}

theorem container?_plain (h : p.Sound) (package container : String) :
    p.plain.container? package container =
      (p.container? package container).map Container.plain := by
  rw [MissionText.Project.container?, package?_plain h, Option.bind_map, container?,
    Option.map_bind]
  exact Option.bind_congr fun g hg => Package.container?_plain container (h.get?_eq_some hg)

theorem key?_plain (h : p.Sound) (package container key : String) :
    p.plain.key? package container key = (p.key? package container key).map Key.plain := by
  rw [MissionText.Project.key?_eq_container?, container?_plain h, Option.bind_map, key?,
    Option.map_bind]
  refine Option.bind_congr fun c hc => ?_
  obtain ⟨g, hg, hc⟩ := Option.bind_eq_some_iff.1 hc
  have hgsound : g.Sound := h.get?_eq_some hg
  exact Container.key?_plain key (hgsound.get?_eq_some hc)

theorem language_of_translation? (h : p.Sound) {a : Address} {t : Translation}
    (ht : p.translation? a = some t) : lowerCased t.language = lowerCased a.language := by
  rw [← translation?_plain a h] at ht
  obtain ⟨g, -, ht⟩ := Option.bind_eq_some_iff.1 ht
  obtain ⟨c, -, ht⟩ := Option.bind_eq_some_iff.1 ht
  obtain ⟨k, -, ht⟩ := Option.bind_eq_some_iff.1 ht
  have hfind : Siblings.find? a.language k.translations = some t := ht
  have hname := sameFolded_iff.1 (Siblings.name_of_find? hfind)
  exact hname

/-- **A catalog in agreement with a map** answers as the map does. -/
theorem Sound.represents (h : p.Sound) (hp : p.plain.WellFormed) (hM : p.plain.Agrees M) :
    p.Represents M := by
  have htext (a : Address) : (p.translation? a).map Translation.text = M.lookup a.folded := by
    rw [← translation?_plain a h, ← MissionText.Project.textAt_eq_translation?, hM.lookup]
  constructor
  case sound => exact h
  case text => exact htext
  case language =>
    intro a t ht
    exact language_of_translation? h ht
  case mem_translations =>
    intro package container key language text
    rw [← translations_plain h]
    exact hM.mem_translations hp package container key language text
  case nodup_translations =>
    intro package container key
    rw [← translations_plain h]
    exact hp.nodup_translations package container key
  case removed =>
    intro a
    rw [fst_remove a h, htext]
  case isSome_package? =>
    intro package
    rw [← hM.isSome_package? hp, package?_plain h, Option.isSome_map]
  case isSome_container? =>
    intro package container
    rw [← hM.isSome_container? hp, container?_plain h, Option.isSome_map]
  case isSome_key? =>
    intro package container key
    rw [← hM.isSome_key? hp, key?_plain h, Option.isSome_map]
  case keyCount => exact hM.keyCount_eq hp
  case unchanged =>
    intro a hnone
    rw [← htext, Option.map_eq_none_iff] at hnone
    have hremove := remove_of_missing a h hnone
    refine ⟨?_, hremove⟩
    rw [Project.set, if_pos (String.isEmpty_iff.2 rfl), hremove]

/-! ## Runs -/

theorem Sound.apply (h : p.Sound) (o : Operation) : (o.onIndexed p).Sound := by
  cases o with
  | set a text => exact h.set a text
  | remove a => exact h.remove a

theorem plain_apply (h : p.Sound) (o : Operation) :
    (o.onIndexed p).plain = o.onProject p.plain := by
  cases o with
  | set a text => exact plain_set a h text
  | remove a => exact plain_remove a h

theorem wellFormed_apply {p : MissionText.Project} (h : p.WellFormed) (o : Operation) :
    (o.onProject p).WellFormed := by
  cases o with
  | set a text => exact h.set a text
  | remove a => exact h.set a ""

/-- What a run of changes preserves. -/
theorem agrees_foldl (ops : List Operation) (h : p.Sound) (hp : p.plain.WellFormed)
    (hM : p.plain.Agrees M) :
    (ops.foldl (fun p o => o.onIndexed p) p).Sound ∧
      (ops.foldl (fun p o => o.onIndexed p) p).plain =
        ops.foldl (fun p o => o.onProject p) p.plain ∧
      (ops.foldl (fun p o => o.onIndexed p) p).plain.WellFormed ∧
      (ops.foldl (fun p o => o.onIndexed p) p).plain.Agrees
        (ops.foldl (fun M o => o.onMap M) M) := by
  induction ops generalizing p M with
  | nil => exact ⟨h, rfl, hp, hM⟩
  | cons o ops ih =>
    have hplain := plain_apply h o
    have hwell := wellFormed_apply hp o
    have hagrees := hM.apply hp o
    rw [← hplain] at hwell hagrees
    have hrest := ih (h.apply o) hwell hagrees
    rwa [hplain] at hrest

/-- **A catalog is a finite map**: after any changes of an empty catalog it
    represents the map that the same changes make of the empty one, and its plain
    form is the catalog that they make. -/
theorem represents_textMap (name : String) (ops : List Operation) :
    (ops.foldl (fun p o => o.onIndexed p) (new name)).Represents
        (ops.foldl (fun M o => o.onMap M) ∅) ∧
      (ops.foldl (fun p o => o.onIndexed p) (new name)).plain =
        ops.foldl (fun p o => o.onProject p) (.new name) := by
  obtain ⟨hsound, hplain, hwell, hagrees⟩ := agrees_foldl ops (sound_new name)
    (MissionText.Project.wellFormed_new name) (MissionText.Project.agrees_new name)
  exact ⟨hsound.represents hwell hagrees, hplain⟩

end Indexed.Project

end MissionText
