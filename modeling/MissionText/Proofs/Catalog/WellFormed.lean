/-
  Well-formed catalogs.

  At every level names are distinct and no node is empty, and no text is empty.

  * `Project.WellFormed` is this invariant; `WellFormed.set` is what one write
    preserves.
  * `Project.Reachable` are the projects that the operations on projects lead
    to; `Reachable.wellFormed` is the invariant along all of them.
  * `editKey`, `editContainer`, `editPackage` change a node in place or make it
    first; `set` is an instance of each.
-/
import MissionText.Catalog.Basic
import MissionText.Proofs.Catalog.Siblings
import MissionText.Xliff.Exchange

namespace MissionText

/-! ## Edits of nodes -/

/-- The container with a key edited. -/
def Container.editKey (id : String) (f : Key → Key) (c : Container) : Container :=
  { c with keys := Siblings.edit id (.new id) Key.isEmpty f c.keys }

/-- The package with a container edited. -/
def Package.editContainer (name : String) (f : Container → Container) (p : Package) : Package :=
  { p with containers := Siblings.edit name (.new name) Container.isEmpty f p.containers }

/-- The project with a package edited. -/
def Project.editPackage (name : String) (f : Package → Package) (p : Project) : Project :=
  { p with packages := Siblings.edit name (.new name) Package.isEmpty f p.packages }

/-- The package with a key edited. -/
def Package.editKey (container id : String) (f : Key → Key) : Package → Package :=
  editContainer container (·.editKey id f)

/-- The project with a key edited. -/
def Project.editKey (package container id : String) (f : Key → Key) : Project → Project :=
  editPackage package (·.editKey container id f)

/-- A write is an edit of a key. -/
theorem Project.set_eq_editKey (p : Project) (a : Address) (text : String) :
    p.set a text = p.editKey a.package a.container a.key (·.set a.language text) := rfl

theorem Project.setAll_cons (p : Project) (w : Address × String)
    (ws : List (Address × String)) : p.setAll (w :: ws) = (p.set w.1 w.2).setAll ws := rfl

theorem Project.name_setAll (p : Project) (ws : List (Address × String)) :
    (p.setAll ws).name = p.name := by
  induction ws generalizing p with
  | nil => rfl
  | cons w ws ih => exact ih (p.set w.1 w.2)

theorem Project.mem_keys {p : Project} {k : Key} :
    k ∈ p.keys ↔ ∃ g ∈ p.packages, ∃ c ∈ g.containers, k ∈ c.keys := by
  simp only [keys, List.mem_flatMap]

/-! ## Nodes with content -/

theorem Key.translations_set (k : Key) (language text : String) :
    (k.set language text).translations =
      Siblings.edit language ⟨language, ""⟩ (·.text.isEmpty) (fun t => { t with text := text })
        k.translations := rfl

theorem Container.keys_set (c : Container) (id language text : String) :
    (c.set id language text).keys =
      Siblings.edit id (.new id) Key.isEmpty (·.set language text) c.keys := rfl

theorem Package.containers_set (p : Package) (container id language text : String) :
    (p.set container id language text).containers =
      Siblings.edit container (.new container) Container.isEmpty (·.set id language text)
        p.containers := rfl

theorem Project.packages_set (p : Project) (a : Address) (text : String) :
    (p.set a text).packages =
      Siblings.edit a.package (.new a.package) Package.isEmpty
        (·.set a.container a.key a.language text) p.packages := rfl

theorem Key.isEmpty_set {text : String} (h : text ≠ "") (k : Key) (language : String) :
    (k.set language text).isEmpty = false := by
  rw [isEmpty, List.isEmpty_eq_false_iff, translations_set]
  refine Siblings.edit_ne_nil ?_ k.translations
  intro t
  exact String.isEmpty_eq_false_iff.2 h

theorem Container.isEmpty_editKey {f : Key → Key} (h : ∀ k, (f k).isEmpty = false)
    (c : Container) (id : String) : (c.editKey id f).isEmpty = false := by
  rw [isEmpty, List.isEmpty_eq_false_iff]
  exact Siblings.edit_ne_nil h _

theorem Package.isEmpty_editContainer {f : Container → Container}
    (h : ∀ c, (f c).isEmpty = false) (p : Package) (name : String) :
    (p.editContainer name f).isEmpty = false := by
  rw [isEmpty, List.isEmpty_eq_false_iff]
  exact Siblings.edit_ne_nil h _

theorem Package.isEmpty_editKey {f : Key → Key} (h : ∀ k, (f k).isEmpty = false) (p : Package)
    (container id : String) : (p.editKey container id f).isEmpty = false :=
  isEmpty_editContainer (fun c => Container.isEmpty_editKey h c id) p container

/-! ## The invariant -/

/-- Languages are distinct and no text is empty. -/
def Key.WellFormed (k : Key) : Prop :=
  Siblings.WellFormed (fun _ => True) (·.text.isEmpty) k.translations

/-- Keys are distinct, well-formed and not empty. -/
def Container.WellFormed (c : Container) : Prop :=
  Siblings.WellFormed Key.WellFormed Key.isEmpty c.keys

/-- Containers are distinct, well-formed and not empty. -/
def Package.WellFormed (p : Package) : Prop :=
  Siblings.WellFormed Container.WellFormed Container.isEmpty p.containers

/-- Packages are distinct, well-formed and not empty. -/
def Project.WellFormed (p : Project) : Prop :=
  Siblings.WellFormed Package.WellFormed Package.isEmpty p.packages

theorem Key.wellFormed_new (id : String) : (new id).WellFormed := Siblings.WellFormed.nil _ _

theorem Container.wellFormed_new (name : String) : (new name).WellFormed :=
  Siblings.WellFormed.nil _ _

theorem Package.wellFormed_new (name : String) : (new name).WellFormed :=
  Siblings.WellFormed.nil _ _

theorem Project.wellFormed_new (name : String) : (new name).WellFormed :=
  Siblings.WellFormed.nil _ _

theorem Key.WellFormed.set {k : Key} (h : k.WellFormed) (language text : String) :
    (k.set language text).WellFormed := by
  have hnew : Named.name (⟨language, ""⟩ : Translation) = language := rfl
  rw [WellFormed, translations_set]
  refine Siblings.WellFormed.edit h hnew ?_ trivial ?_
  · intro t
    rfl
  · intro t _
    trivial

theorem Container.WellFormed.editKey {c : Container} (h : c.WellFormed) {f : Key → Key}
    (hid : ∀ k, (f k).id = k.id) (hf : ∀ k, k.WellFormed → (f k).WellFormed) (id : String) :
    (c.editKey id f).WellFormed :=
  Siblings.WellFormed.edit h rfl hid (Key.wellFormed_new id) hf

theorem Package.WellFormed.editKey {p : Package} (h : p.WellFormed) {f : Key → Key}
    (hid : ∀ k, (f k).id = k.id) (hf : ∀ k, k.WellFormed → (f k).WellFormed)
    (container id : String) : (p.editKey container id f).WellFormed :=
  Siblings.WellFormed.edit h rfl (fun _ => rfl) (Container.wellFormed_new container)
    fun _ hc => Container.WellFormed.editKey hc hid hf id

theorem Project.WellFormed.editKey {p : Project} (h : p.WellFormed) {f : Key → Key}
    (hid : ∀ k, (f k).id = k.id) (hf : ∀ k, k.WellFormed → (f k).WellFormed)
    (package container id : String) : (p.editKey package container id f).WellFormed :=
  Siblings.WellFormed.edit h rfl (fun _ => rfl) (Package.wellFormed_new package)
    fun _ hp => Package.WellFormed.editKey hp hid hf container id

/-- **A write keeps a project well-formed.** -/
theorem Project.WellFormed.set {p : Project} (h : p.WellFormed) (a : Address) (text : String) :
    (p.set a text).WellFormed := by
  rw [set_eq_editKey]
  refine h.editKey ?_ ?_ a.package a.container a.key
  · intro k
    rfl
  · intro k hk
    exact hk.set a.language text

theorem Project.WellFormed.setAll {p : Project} (h : p.WellFormed)
    (ws : List (Address × String)) : (p.setAll ws).WellFormed := by
  induction ws generalizing p with
  | nil => exact h
  | cons w ws ih => exact ih (h.set w.1 w.2)

theorem Project.WellFormed.rename {p : Project} (h : p.WellFormed) (name : String) :
    WellFormed { p with name } := h

theorem Project.WellFormed.mergeInto {p : Project} (h : p.WellFormed) (d : Xliff.Document) :
    (d.mergeInto p).WellFormed :=
  (h.rename d.projectName).setAll d.writes

/-- A well-formed project is empty if it has no keys. -/
theorem Project.WellFormed.isEmpty_iff {p : Project} (h : p.WellFormed) :
    p.isEmpty = true ↔ p.keys = [] := by
  rw [isEmpty, List.isEmpty_iff]
  constructor
  · intro hnil
    rw [keys, hnil]
    rfl
  · intro hnil
    rw [List.eq_nil_iff_forall_not_mem]
    intro g hg
    obtain ⟨c, hc⟩ := List.exists_mem_of_ne_nil _ (List.isEmpty_eq_false_iff.1 (h.full g hg))
    obtain ⟨k, hk⟩ := List.exists_mem_of_ne_nil _
      (List.isEmpty_eq_false_iff.1 ((h.each g hg).full c hc))
    have hmem : k ∈ p.keys := mem_keys.2 ⟨g, hg, c, hc, hk⟩
    rw [hnil] at hmem
    cases hmem

/-! ## Reachable projects -/

/-- The projects that the operations lead to. -/
inductive Project.Reachable : Project → Prop
  | new (name : String) : Reachable (.new name)
  | set {p : Project} (h : Reachable p) (a : Address) (text : String) : Reachable (p.set a text)
  | erase {p : Project} (h : Reachable p) (a : Address) : Reachable (p.erase a)
  | rename {p : Project} (h : Reachable p) (name : String) : Reachable { p with name }
  | merge {p : Project} (h : Reachable p) (d : Xliff.Document) : Reachable (d.mergeInto p)

/-- **Reachable projects are well-formed.** -/
theorem Project.Reachable.wellFormed {p : Project} (h : p.Reachable) : p.WellFormed := by
  induction h with
  | new name => exact wellFormed_new name
  | set _ a text ih => exact ih.set a text
  | erase _ a ih => exact ih.set a ""
  | rename _ name ih => exact ih.rename name
  | merge _ d ih => exact ih.mergeInto d

theorem Project.Reachable.setAll {p : Project} (h : p.Reachable)
    (ws : List (Address × String)) : (p.setAll ws).Reachable := by
  induction ws generalizing p with
  | nil => exact h
  | cons w ws ih => exact ih (h.set w.1 w.2)

end MissionText
