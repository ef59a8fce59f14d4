/-
  What an edit of a key changes.

  * `target` is the key that an edit at a place changes, which is a new one if
    there is none.
  * `locate?_editKey`: an edit changes the key at its place and no other one.
  * `owners_target_editKey`: the names under which another key is edited stay the same.
  * `editKey_target`: an edit under the names that are found is the same edit.
  * `locate?_setAll_writes`: the same, for all texts of a key.
-/
import MissionText.Proofs.Catalog.Lookup
import MissionText.Proofs.Catalog.Rebuild
import MissionText.Script.Extraction

namespace MissionText

/-! ## Places -/

/-- What was found, with the key changed. -/
def KeyMatch.edit (f : Key → Key) (m : KeyMatch) : KeyMatch := { m with key := f m.key }

/-- The key that an edit in a container changes. -/
def Container.target (c : Container) (id : String) : Key := (c.key? id).getD (.new id)

/-- The key that an edit in a package changes. -/
def Package.target (g : Package) (container id : String) : KeyMatch :=
  let c := (g.container? container).getD (.new container)
  ⟨g.name, c.name, c.target id⟩

/-- The key that an edit at a place changes. -/
def Project.target (p : Project) (a : Address) : KeyMatch :=
  ((p.package? a.package).getD (.new a.package)).target a.container a.key

/-- All translations of the key at a place. -/
def Project.translationsAt (p : Project) (a : Address) : List Translation :=
  p.translations a.package a.container a.key

theorem Project.translationsAt_eq (p : Project) (a : Address) :
    p.translationsAt a = ((p.locate? a).map (·.key.translations)).getD [] := by
  rw [translationsAt, translations_eq_key?, key?_eq_locate?, Option.map_map]
  rfl

theorem Project.translationsAt_of_locate? {p : Project} {a : Address} {m : KeyMatch}
    (h : p.locate? a = some m) : p.translationsAt a = m.key.translations := by
  rw [translationsAt_eq, h]
  rfl

theorem Project.translationsAt_of_missing {p : Project} {a : Address} (h : p.locate? a = none) :
    p.translationsAt a = [] := by
  rw [translationsAt_eq, h]
  rfl

theorem Project.translationsAt_congr (p : Project) {a b : Address} (h : a.sameKey b = true) :
    p.translationsAt a = p.translationsAt b := by
  rw [translationsAt_eq, translationsAt_eq, p.locate?_congr h]

/-! ## What an edit changes -/

section Edit

variable {f : Key → Key} (hid : ∀ k, (f k).id = k.id) (hf : ∀ k, (f k).isEmpty = false)
include hid hf

theorem Container.key?_editKey {c : Container} (h : c.WellFormed) (id id' : String) :
    (c.editKey id f).key? id' =
      if sameFolded id id' then some (f (c.target id)) else c.key? id' := by
  have hnew : Named.name (Key.new id) = id := rfl
  have hfind := Siblings.find?_edit_of_kept h.distinct hnew hid hf id'
  exact hfind

theorem Package.locate?_editKey {g : Package} (h : g.WellFormed)
    (container id container' id' : String) :
    (g.editKey container id f).locate? container' id' =
      if sameFolded container container' && sameFolded id id' then
        some ((g.target container id).edit f)
      else g.locate? container' id' := by
  have hnew : Named.name (Container.new container) = container := rfl
  have hempty : ∀ c : Container, c.isEmpty = true →
      ((c.key? id').map fun k => (⟨g.name, c.name, k⟩ : KeyMatch)) = none := by
    intro c hc
    rw [Container.isEmpty, List.isEmpty_iff] at hc
    rw [Container.key?, hc]
    rfl
  have hedit : ∀ c : Container, c.WellFormed →
      (((c.editKey id f).key? id').map fun k => (⟨g.name, c.name, k⟩ : KeyMatch)) =
        if sameFolded id id' then some ⟨g.name, c.name, f (c.target id)⟩
        else (c.key? id').map fun k => ⟨g.name, c.name, k⟩ := by
    intro c hc
    rw [Container.key?_editKey hid hf hc]
    split_ifs <;> rfl
  exact Siblings.WellFormed.bind_find?_edit (f := (·.editKey id f))
    (g := fun c => (c.key? id').map fun k => (⟨g.name, c.name, k⟩ : KeyMatch))
    (v := fun c => some ⟨g.name, c.name, f (c.target id)⟩) h hnew (fun _ => rfl)
    (Container.wellFormed_new container) rfl hempty hedit container'

/-- **An edit changes the key at its place** and no other one. -/
theorem Project.locate?_editKey {p : Project} (h : p.WellFormed) (a b : Address) :
    (p.editKey a.package a.container a.key f).locate? b =
      if a.sameKey b then some ((p.target a).edit f) else p.locate? b := by
  have hnew : Named.name (Package.new a.package) = a.package := rfl
  have hempty : ∀ g : Package, g.isEmpty = true → g.locate? b.container b.key = none := by
    intro g hg
    rw [Package.isEmpty, List.isEmpty_iff] at hg
    rw [Package.locate?, Package.container?, hg]
    rfl
  exact Siblings.WellFormed.bind_find?_edit (f := (·.editKey a.container a.key f))
    (g := (·.locate? b.container b.key))
    (v := fun g => some ((g.target a.container a.key).edit f)) h hnew (fun _ => rfl)
    (Package.wellFormed_new a.package) rfl hempty
    (fun _ hg => Package.locate?_editKey hid hf hg a.container a.key b.container b.key) b.package

/-! ## The names of owners

A package or container that an edit creates has the name that the edit has for it.
So the names under which another key is edited stay the same, if both edits spell
them in one way. -/

omit hid in
theorem Package.container_target_editKey {g : Package} (h : g.WellFormed)
    {container id container' : String}
    (hspelling : sameFolded container container' = true → container = container') (id' : String) :
    ((g.editKey container id f).target container' id').container =
      (g.target container' id').container := by
  have hnew : Named.name (Container.new container) = container := rfl
  have hname (c : Container) : Named.name (c.editKey id f) = Named.name c := rfl
  have hkept (c : Container) : (c.editKey id f).isEmpty = false :=
    Container.isEmpty_editKey hf c id
  have hfind : (g.editKey container id f).container? container' =
      if sameFolded container container' then
        some (((g.container? container).getD (.new container)).editKey id f)
      else g.container? container' :=
    Siblings.find?_edit_of_kept h.distinct hnew hname hkept container'
  simp only [target, hfind]
  split_ifs with hsame
  · rw [hspelling hsame]
    rfl
  · rfl

omit hid in
theorem Project.owners_target_editKey {p : Project} (h : p.WellFormed) {a b : Address}
    (hpackage : sameFolded a.package b.package = true → a.package = b.package)
    (hcontainer : sameFolded a.package b.package = true →
      sameFolded a.container b.container = true → a.container = b.container) :
    ((p.editKey a.package a.container a.key f).target b).package = (p.target b).package ∧
      ((p.editKey a.package a.container a.key f).target b).container =
        (p.target b).container := by
  have hnew : Named.name (Package.new a.package) = a.package := rfl
  have hname (g : Package) : Named.name (g.editKey a.container a.key f) = Named.name g := rfl
  have hkept (g : Package) : (g.editKey a.container a.key f).isEmpty = false :=
    Package.isEmpty_editKey hf g a.container a.key
  have hfind : (p.editKey a.package a.container a.key f).package? b.package =
      if sameFolded a.package b.package then
        some (((p.package? a.package).getD (.new a.package)).editKey a.container a.key f)
      else p.package? b.package :=
    Siblings.find?_edit_of_kept h.distinct hnew hname hkept b.package
  simp only [target, hfind]
  split_ifs with hsame
  · have hwell : ((p.package? a.package).getD (.new a.package)).WellFormed := by
      rcases hg : p.package? a.package with _ | g
      · exact Package.wellFormed_new a.package
      · exact h.each g (Siblings.mem_of_find? hg)
    rw [Option.getD_some, Package.container_target_editKey hf hwell (hcontainer hsame) b.key,
      hpackage hsame]
    exact ⟨rfl, rfl⟩
  · exact ⟨rfl, rfl⟩

end Edit

/-- A package and a container have one spelling each, whichever of their keys is
    found. -/
theorem Project.owners_of_locate? {p : Project} {a b : Address} {m n : KeyMatch}
    (hm : p.locate? a = some m) (hn : p.locate? b = some n)
    (hpackage : sameFolded a.package b.package = true) :
    m.package = n.package ∧
      (sameFolded a.container b.container = true → m.container = n.container) := by
  unfold locate? package? at hm hn
  rw [Siblings.find?_congr hpackage] at hm
  obtain ⟨g, hg, hm⟩ := Option.bind_eq_some_iff.1 hm
  rw [hg, Option.bind_some] at hn
  obtain ⟨c, hc, hm⟩ := Option.bind_eq_some_iff.1 hm
  obtain ⟨d, hd, hn⟩ := Option.bind_eq_some_iff.1 hn
  obtain ⟨k, -, rfl⟩ := Option.map_eq_some_iff.1 hm
  obtain ⟨l, -, rfl⟩ := Option.map_eq_some_iff.1 hn
  refine ⟨rfl, fun hcontainer => ?_⟩
  rw [Package.container?, Siblings.find?_congr hcontainer] at hc
  exact congrArg Container.name (Option.some.inj (hc.symm.trans hd))

/-! ## The key that an edit changes -/

theorem Project.target_of_locate? {p : Project} {a : Address} {m : KeyMatch}
    (h : p.locate? a = some m) : p.target a = m := by
  obtain ⟨g, hg, hm⟩ := Option.bind_eq_some_iff.1 h
  obtain ⟨c, hc, hm⟩ := Option.bind_eq_some_iff.1 hm
  obtain ⟨k, hk, rfl⟩ := Option.map_eq_some_iff.1 hm
  simp only [target, hg, Option.getD_some, Package.target, hc, Container.target, hk]

theorem Project.target_of_missing {p : Project} {a : Address} (h : p.locate? a = none) :
    (p.target a).key = .new a.key := by
  unfold locate? at h
  unfold target
  rcases hg : p.package? a.package with _ | g
  · rfl
  · rw [hg, Option.bind_some, Package.locate?] at h
    rw [Option.getD_some, Package.target]
    rcases hc : g.container? a.container with _ | c
    · rfl
    · rw [hc, Option.bind_some, Option.map_eq_none_iff] at h
      simp only [Option.getD_some, Container.target, h, Option.getD_none]

theorem Project.translations_target (p : Project) (a : Address) :
    (p.target a).key.translations = p.translationsAt a := by
  rcases h : p.locate? a with _ | m
  · rw [target_of_missing h, translationsAt_of_missing h]
    rfl
  · rw [target_of_locate? h, translationsAt_of_locate? h]

theorem Container.editKey_target (c : Container) (id : String) (f : Key → Key) :
    c.editKey (c.target id).id f = c.editKey id f :=
  congrArg (Container.mk c.name) (Siblings.edit_of_eq Key.new (fun _ => rfl) rfl rfl)

theorem Package.editKey_target (g : Package) (container id : String) (f : Key → Key) :
    g.editKey (g.target container id).container (g.target container id).key.id f =
      g.editKey container id f :=
  congrArg (Package.mk g.name) (Siblings.edit_of_eq Container.new (fun _ => rfl) rfl
    (Container.editKey_target _ id f))

/-- **An edit under the names that are found** is the same edit. -/
theorem Project.editKey_target (p : Project) (a : Address) (f : Key → Key) :
    p.editKey (p.target a).package (p.target a).container (p.target a).key.id f =
      p.editKey a.package a.container a.key f :=
  congrArg (Project.mk p.name) (Siblings.edit_of_eq Package.new (fun _ => rfl) rfl
    (Package.editKey_target _ a.container a.key f))

/-! ## The texts of a key -/

/-- A found key has texts, none of them empty. -/
structure KeyMatch.HasTexts (m : KeyMatch) : Prop where
  ne_nil : m.key.translations ≠ []
  text_ne_empty : ∀ t ∈ m.key.translations, t.text ≠ ""

theorem KeyMatch.HasTexts.isEmpty_setAll {m : KeyMatch} (h : m.HasTexts) (k : Key) :
    (k.setAll m.key.translations).isEmpty = false :=
  Key.isEmpty_setAll h.ne_nil h.text_ne_empty k

/-- The texts of a key are set by one edit of it. -/
theorem Project.setAll_writes_eq_editKey {m : KeyMatch} (h : m.HasTexts) (p : Project) :
    p.setAll m.writes =
      p.editKey m.place.package m.place.container m.place.key (·.setAll m.key.translations) :=
  setAll_key h.ne_nil h.text_ne_empty p m.package m.container m.key.id

/-- **The texts of a key that are set** change the key at its place and no other
    one. -/
theorem Project.locate?_setAll_writes {p : Project} (hp : p.WellFormed) {m : KeyMatch}
    (h : m.HasTexts) (a : Address) :
    (p.setAll m.writes).locate? a =
      if m.place.sameKey a then some ((p.target m.place).edit (·.setAll m.key.translations))
      else p.locate? a := by
  rw [setAll_writes_eq_editKey h, locate?_editKey (Key.id_setAll _) h.isEmpty_setAll hp]

theorem Project.translationsAt_setAll_writes {p : Project} (hp : p.WellFormed) {m : KeyMatch}
    (h : m.HasTexts) (a : Address) :
    (p.setAll m.writes).translationsAt a =
      if m.place.sameKey a then withTexts m.key.translations (p.translationsAt a)
      else p.translationsAt a := by
  rw [translationsAt_eq, locate?_setAll_writes hp h]
  split_ifs with hsame
  · rw [← p.translationsAt_congr hsame, ← translations_target, ← Key.translations_setAll]
    rfl
  · rw [translationsAt_eq]

/-- A key that is there keeps its place. -/
theorem Project.exists_locate?_setAll_writes {p : Project} (hp : p.WellFormed) {m : KeyMatch}
    (h : m.HasTexts) {a : Address} {n : KeyMatch} (hn : p.locate? a = some n) :
    ∃ n', (p.setAll m.writes).locate? a = some n' ∧ n'.place = n.place := by
  rw [locate?_setAll_writes hp h]
  split_ifs with hsame
  · refine ⟨_, rfl, ?_⟩
    rw [target_of_locate? ((p.locate?_congr hsame).trans hn)]
    simp only [KeyMatch.place, KeyMatch.edit, Key.id_setAll]
  · exact ⟨n, hn, rfl⟩

/-! ## Keys of a well-formed project -/

theorem Project.WellFormed.key_of_locate? {p : Project} (h : p.WellFormed) {a : Address}
    {m : KeyMatch} (hm : p.locate? a = some m) : m.key.WellFormed ∧ m.HasTexts := by
  obtain ⟨g, hg, hm⟩ := Option.bind_eq_some_iff.1 hm
  obtain ⟨c, hc, hm⟩ := Option.bind_eq_some_iff.1 hm
  obtain ⟨k, hk, rfl⟩ := Option.map_eq_some_iff.1 hm
  have hkeys := (h.each g (Siblings.mem_of_find? hg)).each c (Siblings.mem_of_find? hc)
  have hmem := Siblings.mem_of_find? hk
  have hwell := hkeys.each k hmem
  exact ⟨hwell, List.isEmpty_eq_false_iff.1 (hkeys.full k hmem), fun t ht => hwell.text_ne_empty ht⟩

theorem Project.WellFormed.textAt_of_locate? {p : Project} (h : p.WellFormed) {a : Address}
    {m : KeyMatch} (hm : p.locate? a = some m) {t : Translation} (ht : t ∈ m.key.translations)
    (hl : sameFolded t.language a.language = true) : p.textAt a = some t.text := by
  rw [textAt_eq_locate?, hm]
  exact (h.key_of_locate? hm).1.text?_of_same ht hl

theorem Project.WellFormed.text_ne_empty {p : Project} (h : p.WellFormed) {a : Address}
    {t : Translation} (ht : p.translation? a = some t) : t.text ≠ "" := by
  rw [translation?_eq_locate?] at ht
  obtain ⟨m, hm, ht⟩ := Option.bind_eq_some_iff.1 ht
  exact (h.key_of_locate? hm).1.text_ne_empty (Siblings.mem_of_find? ht)

theorem Project.WellFormed.key_translationsAt {p : Project} (h : p.WellFormed) (a : Address) :
    Siblings.Distinct (p.translationsAt a) ∧ ∀ t ∈ p.translationsAt a, t.text ≠ "" := by
  rcases hm : p.locate? a with _ | m
  · rw [translationsAt_of_missing hm]
    exact ⟨List.Pairwise.nil, fun _ ht => by cases ht⟩
  · rw [translationsAt_of_locate? hm]
    obtain ⟨hwell, htexts⟩ := h.key_of_locate? hm
    exact ⟨hwell.distinct, htexts.text_ne_empty⟩

end MissionText
