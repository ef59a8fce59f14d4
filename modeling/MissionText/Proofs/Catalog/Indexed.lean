/-
  Laws of catalogs with indexes.

  * `Project.Sound`: at every level the index is exact, names are distinct and
    nothing is empty; `Sound.set` and `Sound.remove` are what an operation
    preserves.
  * `plain_set`, `plain_remove`: without the indexes an operation is that of the
    plain catalog.
  * `translation?_plain`, `fst_remove`: a question answered through the indexes
    has the answer of the plain catalog, and a removal takes away what was there.
  * `Project.Reachable` are the catalogs that the operations lead to;
    `Reachable.sound` is the invariant along all of them.
-/
import MissionText.Catalog.Indexed
import MissionText.Proofs.Catalog.Children
import MissionText.Proofs.Catalog.WellFormed

namespace MissionText.Indexed

/-! ## Sound nodes -/

/-- The index of languages is exact and no text is empty. -/
def Key.Sound (k : Key) : Prop :=
  k.translations.Sound (fun _ => True) (·.text.isEmpty)

/-- The index of keys is exact, and keys are sound and not empty. -/
def Container.Sound (c : Container) : Prop :=
  c.keys.Sound Key.Sound Key.isEmpty

/-- The index of containers is exact, and containers are sound and not empty. -/
def Package.Sound (p : Package) : Prop :=
  p.containers.Sound Container.Sound Container.isEmpty

/-- The index of packages is exact, and packages are sound and not empty. -/
def Project.Sound (p : Project) : Prop :=
  p.packages.Sound Package.Sound Package.isEmpty

theorem Key.sound_new (id : String) : (new id).Sound := Children.sound_empty _ _

theorem Container.sound_new (name : String) : (new name).Sound := Children.sound_empty _ _

theorem Package.sound_new (name : String) : (new name).Sound := Children.sound_empty _ _

theorem Project.sound_new (name : String) : (new name).Sound := Children.sound_empty _ _

/-! ## Plain nodes -/

theorem Key.isEmpty_plain (k : Key) : k.plain.isEmpty = k.isEmpty := rfl

theorem Container.isEmpty_plain (c : Container) : c.plain.isEmpty = c.isEmpty := by
  simp [plain, isEmpty, MissionText.Container.isEmpty, Children.isEmpty]

theorem Package.isEmpty_plain (p : Package) : p.plain.isEmpty = p.isEmpty := by
  simp [plain, isEmpty, MissionText.Package.isEmpty, Children.isEmpty]

/-! ## Keys -/

namespace Key

variable {k : Key} (language : String)

theorem id_remove (k : Key) : (k.remove language).2.id = k.id := rfl

theorem isEmpty_remove_new (id : String) : ((new id).remove language).2.isEmpty = true := rfl

theorem id_set (text : String) (k : Key) : (k.set language text).id = k.id := by
  unfold set
  split_ifs
  · rfl
  · rfl

theorem translation?_plain (h : k.Sound) : k.plain.translation? language = k.translation? language :=
  (h.indexed.get?_eq_find? language).symm

theorem fst_remove (h : k.Sound) : (k.remove language).1 = k.translation? language :=
  h.indexed.fst_remove.trans (h.indexed.get?_eq_find? language).symm

theorem plain_remove (h : k.Sound) : (k.remove language).2.plain = k.plain.set language "" := by
  have hitems : (k.translations.remove language).2.items =
      Siblings.edit language ⟨language, ""⟩ (·.text.isEmpty) (fun t => { t with text := "" })
        k.translations.items :=
    h.indexed.items_remove fun _ => rfl
  rw [plain, MissionText.Key.set, plain, ← hitems]
  rfl

theorem plain_set (h : k.Sound) (text : String) :
    (k.set language text).plain = k.plain.set language text := by
  unfold set
  split_ifs with ht
  · rw [plain_remove language h, String.isEmpty_iff.1 ht]
  · have hitems : (k.translations.put language ⟨language, ""⟩
        fun t => { t with text := text }).items =
        Siblings.edit language ⟨language, ""⟩ (·.text.isEmpty) (fun t => { t with text := text })
          k.translations.items :=
      h.items_put (fun _ _ => Bool.eq_false_iff.2 ht) trivial
    rw [plain, hitems]
    rfl

theorem Sound.remove (h : k.Sound) : (k.remove language).2.Sound := Children.Sound.remove h

theorem Sound.set (h : k.Sound) (text : String) : (k.set language text).Sound := by
  unfold Key.set
  split_ifs with ht
  · exact h.remove language
  · have hnew : Named.name (⟨language, ""⟩ : Translation) = language := rfl
    exact Children.Sound.put h hnew (fun _ => rfl) (fun _ _ => Bool.eq_false_iff.2 ht) trivial
      fun _ _ => trivial

theorem isEmpty_set (h : k.Sound) {text : String} (ht : text ≠ "") :
    (k.set language text).isEmpty = false := by
  rw [← isEmpty_plain, plain_set language h]
  exact MissionText.Key.isEmpty_set ht _ _

theorem remove_of_missing (h : k.Sound) (hmissing : k.translation? language = none) :
    k.remove language = (none, k) := by
  have hposition : k.translations.position? language = none := by
    refine h.indexed.position?_of_missing ?_
    rwa [← translation?_plain language h, MissionText.Key.translation?,
      Siblings.find?_eq_none_iff] at hmissing
  rw [Key.remove, Children.remove, hposition]

end Key

/-! ## Containers -/

namespace Container

variable {c : Container} (id language : String)

theorem name_remove (c : Container) : (c.remove id language).2.name = c.name := rfl

theorem isEmpty_remove_new (name : String) :
    ((new name).remove id language).2.isEmpty = true := rfl

theorem name_set (text : String) (c : Container) : (c.set id language text).name = c.name := by
  unfold set
  split_ifs
  · rfl
  · rfl

theorem key?_plain (h : c.Sound) : c.plain.key? id = (c.key? id).map Key.plain :=
  h.indexed.find?_map_items (v := Key.plain) (fun _ => rfl) id

theorem translation?_plain (h : c.Sound) :
    c.plain.translation? id language = c.translation? id language := by
  rw [MissionText.Container.translation?, key?_plain id h, Option.bind_map]
  exact Option.bind_congr fun k hk => Key.translation?_plain language (h.get?_eq_some hk)

theorem translations_plain (h : c.Sound) : c.plain.translations id = c.translations id := by
  rw [MissionText.Container.translations, key?_plain id h, Option.map_map]
  rfl

theorem fst_remove (h : c.Sound) : (c.remove id language).1 = c.translation? id language :=
  h.fst_removeBelow fun _ hk => Key.fst_remove language hk

theorem plain_remove (h : c.Sound) :
    (c.remove id language).2.plain = c.plain.set id language "" := by
  have hkeys : (c.keys.removeBelow id Key.isEmpty (·.remove language)).2.items.map Key.plain =
      Siblings.edit id (.new id) MissionText.Key.isEmpty (·.set language "")
        (c.keys.items.map Key.plain) :=
    h.map_items_removeBelow (fun _ => rfl) Key.isEmpty_plain (Key.isEmpty_remove_new language id)
      (Key.sound_new id) (fun _ hk => Key.plain_remove language hk) rfl
  rw [MissionText.Container.set, plain, plain]
  exact congrArg (MissionText.Container.mk c.name) hkeys

theorem plain_set (h : c.Sound) (text : String) :
    (c.set id language text).plain = c.plain.set id language text := by
  unfold set
  split_ifs with ht
  · rw [plain_remove id language h, String.isEmpty_iff.1 ht]
  · have ht : text ≠ "" := fun h => ht (String.isEmpty_iff.2 h)
    have hkeys : (c.keys.put id (.new id) (·.set language text)).items.map Key.plain =
        Siblings.edit id (.new id) MissionText.Key.isEmpty (·.set language text)
          (c.keys.items.map Key.plain) :=
      h.map_items_put (fun _ => rfl) Key.isEmpty_plain
        (fun _ hk => Key.isEmpty_set language hk ht) (Key.sound_new id)
        (fun _ hk => Key.plain_set language hk text) rfl
    rw [MissionText.Container.set, plain, plain]
    exact congrArg (MissionText.Container.mk c.name) hkeys

theorem Sound.remove (h : c.Sound) : (c.remove id language).2.Sound := by
  have hnew : Named.name (Key.new id) = id := rfl
  exact Children.Sound.removeBelow h hnew (Key.id_remove language)
    (Key.isEmpty_remove_new language id) (Key.sound_new id) fun _ hk => hk.remove language

theorem Sound.set (h : c.Sound) (text : String) : (c.set id language text).Sound := by
  unfold Container.set
  split_ifs with ht
  · exact h.remove id language
  · have ht : text ≠ "" := fun h => ht (String.isEmpty_iff.2 h)
    exact Children.Sound.put h rfl (Key.id_set language text)
      (fun _ hk => Key.isEmpty_set language hk ht) (Key.sound_new id)
      fun _ hk => hk.set language text

theorem isEmpty_set (h : c.Sound) {text : String} (ht : text ≠ "") :
    (c.set id language text).isEmpty = false := by
  rw [← isEmpty_plain, plain_set id language h]
  exact MissionText.Container.isEmpty_editKey
    (fun k => MissionText.Key.isEmpty_set ht k language) _ id

theorem remove_of_missing (h : c.Sound) (hmissing : c.translation? id language = none) :
    c.remove id language = (none, c) := by
  have hkeys : c.keys.removeBelow id Key.isEmpty (·.remove language) = (none, c.keys) := by
    refine h.removeBelow_of_unchanged fun k hk hsound => Key.remove_of_missing language hsound ?_
    rwa [translation?, key?, hk] at hmissing
  rw [Container.remove, hkeys]

end Container

/-! ## Packages -/

namespace Package

variable {p : Package} (container id language : String)

theorem name_remove (p : Package) : (p.remove container id language).2.name = p.name := rfl

theorem isEmpty_remove_new (name : String) :
    ((new name).remove container id language).2.isEmpty = true := rfl

theorem name_set (text : String) (p : Package) :
    (p.set container id language text).name = p.name := by
  unfold set
  split_ifs
  · rfl
  · rfl

theorem container?_plain (h : p.Sound) :
    p.plain.container? container = (p.container? container).map Container.plain :=
  h.indexed.find?_map_items (v := Container.plain) (fun _ => rfl) container

theorem translation?_plain (h : p.Sound) :
    p.plain.translation? container id language = p.translation? container id language := by
  rw [MissionText.Package.translation?, container?_plain container h, Option.bind_map]
  exact Option.bind_congr fun c hc => Container.translation?_plain id language (h.get?_eq_some hc)

theorem translations_plain (h : p.Sound) :
    p.plain.translations container id = p.translations container id := by
  rw [MissionText.Package.translations, container?_plain container h, Option.map_map, translations]
  congr 1
  exact Option.map_congr fun c hc => Container.translations_plain id (h.get?_eq_some hc)

theorem fst_remove (h : p.Sound) :
    (p.remove container id language).1 = p.translation? container id language :=
  h.fst_removeBelow fun _ hc => Container.fst_remove id language hc

theorem plain_remove (h : p.Sound) :
    (p.remove container id language).2.plain = p.plain.set container id language "" := by
  have hcontainers : (p.containers.removeBelow container Container.isEmpty
      (·.remove id language)).2.items.map Container.plain =
      Siblings.edit container (.new container) MissionText.Container.isEmpty (·.set id language "")
        (p.containers.items.map Container.plain) :=
    h.map_items_removeBelow (fun _ => rfl) Container.isEmpty_plain
      (Container.isEmpty_remove_new id language container) (Container.sound_new container)
      (fun _ hc => Container.plain_remove id language hc) rfl
  rw [MissionText.Package.set, plain, plain]
  exact congrArg (MissionText.Package.mk p.name) hcontainers

theorem plain_set (h : p.Sound) (text : String) :
    (p.set container id language text).plain = p.plain.set container id language text := by
  unfold set
  split_ifs with ht
  · rw [plain_remove container id language h, String.isEmpty_iff.1 ht]
  · have ht : text ≠ "" := fun h => ht (String.isEmpty_iff.2 h)
    have hcontainers : (p.containers.put container (.new container)
        (·.set id language text)).items.map Container.plain =
        Siblings.edit container (.new container) MissionText.Container.isEmpty
          (·.set id language text) (p.containers.items.map Container.plain) :=
      h.map_items_put (fun _ => rfl) Container.isEmpty_plain
        (fun _ hc => Container.isEmpty_set id language hc ht) (Container.sound_new container)
        (fun _ hc => Container.plain_set id language hc text) rfl
    rw [MissionText.Package.set, plain, plain]
    exact congrArg (MissionText.Package.mk p.name) hcontainers

theorem Sound.remove (h : p.Sound) : (p.remove container id language).2.Sound := by
  have hnew : Named.name (Container.new container) = container := rfl
  exact Children.Sound.removeBelow h hnew (Container.name_remove id language)
    (Container.isEmpty_remove_new id language container) (Container.sound_new container)
    fun _ hc => hc.remove id language

theorem Sound.set (h : p.Sound) (text : String) :
    (p.set container id language text).Sound := by
  unfold Package.set
  split_ifs with ht
  · exact h.remove container id language
  · have ht : text ≠ "" := fun h => ht (String.isEmpty_iff.2 h)
    exact Children.Sound.put h rfl (Container.name_set id language text)
      (fun _ hc => Container.isEmpty_set id language hc ht) (Container.sound_new container)
      fun _ hc => hc.set id language text

theorem isEmpty_set (h : p.Sound) {text : String} (ht : text ≠ "") :
    (p.set container id language text).isEmpty = false := by
  rw [← isEmpty_plain, plain_set container id language h]
  exact MissionText.Package.isEmpty_editKey
    (fun k => MissionText.Key.isEmpty_set ht k language) _ container id

theorem remove_of_missing (h : p.Sound)
    (hmissing : p.translation? container id language = none) :
    p.remove container id language = (none, p) := by
  have hcontainers : p.containers.removeBelow container Container.isEmpty (·.remove id language) =
      (none, p.containers) := by
    refine h.removeBelow_of_unchanged fun c hc hsound =>
      Container.remove_of_missing id language hsound ?_
    rwa [translation?, container?, hc] at hmissing
  rw [Package.remove, hcontainers]

end Package

/-! ## Projects -/

namespace Project

variable {p : Project} (a : Address)

theorem package?_plain (h : p.Sound) (name : String) :
    p.plain.package? name = (p.package? name).map Package.plain :=
  h.indexed.find?_map_items (v := Package.plain) (fun _ => rfl) name

/-- **The translation at an address** is found through the indexes. -/
theorem translation?_plain (h : p.Sound) : p.plain.translation? a = p.translation? a := by
  rw [MissionText.Project.translation?, package?_plain h, Option.bind_map]
  exact Option.bind_congr fun g hg =>
    Package.translation?_plain a.container a.key a.language (h.get?_eq_some hg)

theorem translations_plain (h : p.Sound) (package container key : String) :
    p.plain.translations package container key = p.translations package container key := by
  rw [MissionText.Project.translations, package?_plain h, Option.map_map, translations]
  congr 1
  exact Option.map_congr fun g hg => Package.translations_plain container key (h.get?_eq_some hg)

/-- **A removal takes away** the translation at the address. -/
theorem fst_remove (h : p.Sound) : (p.remove a).1 = p.translation? a :=
  h.fst_removeBelow fun _ hg => Package.fst_remove a.container a.key a.language hg

/-- **A removal** is that of the plain catalog. -/
theorem plain_remove (h : p.Sound) : (p.remove a).2.plain = p.plain.erase a := by
  have hpackages : (p.packages.removeBelow a.package Package.isEmpty
      (·.remove a.container a.key a.language)).2.items.map Package.plain =
      Siblings.edit a.package (.new a.package) MissionText.Package.isEmpty
        (·.set a.container a.key a.language "") (p.packages.items.map Package.plain) :=
    h.map_items_removeBelow (fun _ => rfl) Package.isEmpty_plain
      (Package.isEmpty_remove_new a.container a.key a.language a.package)
      (Package.sound_new a.package)
      (fun _ hg => Package.plain_remove a.container a.key a.language hg) rfl
  rw [MissionText.Project.erase, MissionText.Project.set, plain, plain]
  exact congrArg (MissionText.Project.mk p.name) hpackages

/-- **A write** is that of the plain catalog. -/
theorem plain_set (h : p.Sound) (text : String) : (p.set a text).plain = p.plain.set a text := by
  unfold set
  split_ifs with ht
  · rw [plain_remove a h, String.isEmpty_iff.1 ht]
    rfl
  · have ht : text ≠ "" := fun h => ht (String.isEmpty_iff.2 h)
    have hpackages : (p.packages.put a.package (.new a.package)
        (·.set a.container a.key a.language text)).items.map Package.plain =
        Siblings.edit a.package (.new a.package) MissionText.Package.isEmpty
          (·.set a.container a.key a.language text) (p.packages.items.map Package.plain) :=
      h.map_items_put (fun _ => rfl) Package.isEmpty_plain
        (fun _ hg => Package.isEmpty_set a.container a.key a.language hg ht)
        (Package.sound_new a.package)
        (fun _ hg => Package.plain_set a.container a.key a.language hg text) rfl
    rw [MissionText.Project.set, plain, plain]
    exact congrArg (MissionText.Project.mk p.name) hpackages

/-- **A removal keeps a catalog sound.** -/
theorem Sound.remove (h : p.Sound) : (p.remove a).2.Sound := by
  have hnew : Named.name (Package.new a.package) = a.package := rfl
  exact Children.Sound.removeBelow h hnew (Package.name_remove a.container a.key a.language)
    (Package.isEmpty_remove_new a.container a.key a.language a.package)
    (Package.sound_new a.package) fun _ hg => hg.remove a.container a.key a.language

/-- **A write keeps a catalog sound.** -/
theorem Sound.set (h : p.Sound) (text : String) : (p.set a text).Sound := by
  unfold Project.set
  split_ifs with ht
  · exact h.remove a
  · have ht : text ≠ "" := fun h => ht (String.isEmpty_iff.2 h)
    exact Children.Sound.put h rfl (Package.name_set a.container a.key a.language text)
      (fun _ hg => Package.isEmpty_set a.container a.key a.language hg ht)
      (Package.sound_new a.package) fun _ hg => hg.set a.container a.key a.language text

/-- **A removal where there is nothing** changes nothing, the indexes included. -/
theorem remove_of_missing (h : p.Sound) (hmissing : p.translation? a = none) :
    p.remove a = (none, p) := by
  have hpackages : p.packages.removeBelow a.package Package.isEmpty
      (·.remove a.container a.key a.language) = (none, p.packages) := by
    refine h.removeBelow_of_unchanged fun g hg hsound =>
      Package.remove_of_missing a.container a.key a.language hsound ?_
    rwa [translation?, package?, hg] at hmissing
  rw [Project.remove, hpackages]

/-! ## Reachable catalogs -/

theorem plain_setAll (h : p.Sound) (ws : List (Address × String)) :
    (p.setAll ws).plain = p.plain.setAll ws := by
  induction ws generalizing p with
  | nil => rfl
  | cons w ws ih =>
    rw [MissionText.Project.setAll_cons, ← plain_set w.1 h w.2]
    exact ih (h.set w.1 w.2)

theorem Sound.setAll (h : p.Sound) (ws : List (Address × String)) : (p.setAll ws).Sound := by
  induction ws generalizing p with
  | nil => exact h
  | cons w ws ih => exact ih (h.set w.1 w.2)

theorem Sound.rename (h : p.Sound) (name : String) : Sound { p with name } := h

/-- The catalogs that the operations lead to. -/
inductive Reachable : Project → Prop
  | new (name : String) : Reachable (.new name)
  | set {p : Project} (h : Reachable p) (a : Address) (text : String) : Reachable (p.set a text)
  | remove {p : Project} (h : Reachable p) (a : Address) : Reachable (p.remove a).2
  | rename {p : Project} (h : Reachable p) (name : String) : Reachable { p with name }
  | merge {p : Project} (h : Reachable p) (d : Xliff.Document) :
    Reachable (setAll { p with name := d.projectName } d.writes)

/-- **Reachable catalogs are sound.** -/
theorem Reachable.sound (h : p.Reachable) : p.Sound := by
  induction h with
  | new name => exact sound_new name
  | set _ a text ih => exact ih.set a text
  | remove _ a ih => exact ih.remove a
  | rename _ name ih => exact ih.rename name
  | merge _ d ih => exact (ih.rename d.projectName).setAll d.writes

/-- Without its indexes a reachable catalog is a reachable one. -/
theorem Reachable.plain (h : p.Reachable) : p.plain.Reachable := by
  induction h with
  | new name => exact .new name
  | set h a text ih =>
    rw [plain_set a h.sound]
    exact ih.set a text
  | remove h a ih =>
    rw [plain_remove a h.sound]
    exact ih.erase a
  | rename _ name ih => exact ih.rename name
  | merge h d ih =>
    rw [plain_setAll (h.sound.rename d.projectName)]
    exact ih.merge d

end Project

end MissionText.Indexed
