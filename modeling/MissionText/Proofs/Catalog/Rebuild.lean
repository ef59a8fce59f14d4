/-
  Catalogs made key by key.

  The keys of some packages are edited one after the other, in order, in
  another project, where every name may be spelled another way.

  * `foldl_editKey`: this is one edit for each package, made of one edit for
    each container, made of one edit for each key (`editAll`).
  * `editAll_empty`, `editAll_image`: the project that this makes of an empty
    one, and of one that already has these packages.
  * `setAll_writes`: the writes of a well-formed project make it again.
-/
import Mathlib.Data.List.Basic
import MissionText.Proofs.Catalog.WellFormed

namespace MissionText

open Siblings (DistinctNames)

/-! ## Edits in order -/

section

variable (rename : String → String) (f : Key → Key → Key)

/-- Every key of a container is edited in another one. -/
def Container.editAll (c : Container) (x : Container) : Container :=
  c.keys.foldl (fun x k => x.editKey (rename k.id) (f k)) x

/-- Every key of a package is edited in another one. -/
def Package.editAll (g : Package) (x : Package) : Package :=
  g.containers.foldl (fun x c => x.editContainer (rename c.name) (c.editAll rename f)) x

/-- Every key of some packages is edited in a project. -/
def Project.editAll (gs : List Package) (p : Project) : Project :=
  gs.foldl (fun p g => p.editPackage (rename g.name) (g.editAll rename f)) p

/-- The container with its keys replaced. -/
def Container.image (a : Key → Key) (c : Container) : Container :=
  ⟨rename c.name, c.keys.map a⟩

/-- The package with its keys replaced. -/
def Package.image (a : Key → Key) (g : Package) : Package :=
  ⟨rename g.name, g.containers.map (Container.image rename a)⟩

theorem Package.image_congr {a b : Key → Key} {g : Package}
    (h : ∀ c ∈ g.containers, ∀ k ∈ c.keys, a k = b k) : g.image rename a = g.image rename b := by
  have hcontainer : ∀ c ∈ g.containers, c.image rename a = c.image rename b := by
    intro c hc
    rw [Container.image, List.map_congr_left (h c hc), Container.image]
  rw [image, List.map_congr_left hcontainer, image]

/-- The names of a container's keys stay distinct. -/
def Container.DistinctUnder (c : Container) : Prop :=
  DistinctNames (fun k : Key => rename k.id) c.keys

/-- The names in a package stay distinct at every level. -/
def Package.DistinctUnder (g : Package) : Prop :=
  DistinctNames (fun c : Container => rename c.name) g.containers ∧
    ∀ c ∈ g.containers, c.DistinctUnder rename

/-- The names in some packages stay distinct at every level. -/
def DistinctUnder (gs : List Package) : Prop :=
  DistinctNames (fun g : Package => rename g.name) gs ∧ ∀ g ∈ gs, g.DistinctUnder rename

end

/-! ## Folds over nodes -/

section Fold

variable {β : Type} (n : β → String)

theorem Container.foldl_editKey (f : β → Key → Key) (bs : List β) (x : Container) :
    bs.foldl (fun x b => x.editKey (n b) (f b)) x =
      { x with
        keys := bs.foldl (fun ks b => Siblings.edit (n b) (.new (n b)) Key.isEmpty (f b) ks)
          x.keys } := by
  induction bs generalizing x with
  | nil => rfl
  | cons b bs ih =>
    rw [List.foldl_cons, ih]
    rfl

theorem Package.foldl_editContainer (f : β → Container → Container) (bs : List β)
    (x : Package) :
    bs.foldl (fun x b => x.editContainer (n b) (f b)) x =
      { x with
        containers := bs.foldl
          (fun cs b => Siblings.edit (n b) (.new (n b)) Container.isEmpty (f b) cs)
          x.containers } := by
  induction bs generalizing x with
  | nil => rfl
  | cons b bs ih =>
    rw [List.foldl_cons, ih]
    rfl

theorem Project.foldl_editPackage (f : β → Package → Package) (bs : List β) (p : Project) :
    bs.foldl (fun p b => p.editPackage (n b) (f b)) p =
      { p with
        packages := bs.foldl
          (fun gs b => Siblings.edit (n b) (.new (n b)) Package.isEmpty (f b) gs)
          p.packages } := by
  induction bs generalizing p with
  | nil => rfl
  | cons b bs ih =>
    rw [List.foldl_cons, ih]
    rfl

theorem Package.foldl_editContainer_same {f : β → Container → Container} {bs : List β}
    (hname : ∀ b c, (f b c).name = c.name) (hv : ∀ b ∈ bs, ∀ c, (f b c).isEmpty = false)
    (hbs : bs ≠ []) (name : String) (x : Package) :
    bs.foldl (fun x b => x.editContainer name (f b)) x =
      x.editContainer name fun c => bs.foldl (fun c b => f b c) c := by
  have hnew : Named.name (Container.new name) = name := rfl
  rw [foldl_editContainer (fun _ => name), Siblings.foldl_edit_same hnew hname hv hbs]
  rfl

theorem Project.foldl_editPackage_same {f : β → Package → Package} {bs : List β}
    (hname : ∀ b g, (f b g).name = g.name) (hv : ∀ b ∈ bs, ∀ g, (f b g).isEmpty = false)
    (hbs : bs ≠ []) (name : String) (p : Project) :
    bs.foldl (fun p b => p.editPackage name (f b)) p =
      p.editPackage name fun g => bs.foldl (fun g b => f b g) g := by
  have hnew : Named.name (Package.new name) = name := rfl
  rw [foldl_editPackage (fun _ => name), Siblings.foldl_edit_same hnew hname hv hbs]
  rfl

end Fold

section

variable {rename : String → String} {f : Key → Key → Key}

theorem Container.name_editAll (c x : Container) : (c.editAll rename f x).name = x.name := by
  rw [editAll, foldl_editKey fun k : Key => rename k.id]

theorem Package.name_editAll (g x : Package) : (g.editAll rename f x).name = x.name := by
  rw [editAll, foldl_editContainer fun c : Container => rename c.name]

/-! ## One edit for each node -/

theorem Container.isEmpty_editAll {c : Container} (hc : c.keys ≠ [])
    (hf : ∀ k ∈ c.keys, ∀ x, (f k x).isEmpty = false) (x : Container) :
    (c.editAll rename f x).isEmpty = false := by
  rcases List.eq_nil_or_concat' c.keys with h | ⟨ks, k, h⟩
  · exact absurd h hc
  · rw [editAll, h, List.foldl_append]
    exact isEmpty_editKey (hf k (by simp [h])) _ _

/-- All containers of a package have keys, and these are edited so that they have
    content. -/
structure Package.Editable (f : Key → Key → Key) (g : Package) : Prop where
  containers : g.containers ≠ []
  keys : ∀ c ∈ g.containers, c.keys ≠ []
  full : ∀ c ∈ g.containers, ∀ k ∈ c.keys, ∀ x, (f k x).isEmpty = false

theorem Package.isEmpty_editAll {g : Package} (h : g.Editable f) (x : Package) :
    (g.editAll rename f x).isEmpty = false := by
  rcases List.eq_nil_or_concat' g.containers with hg | ⟨cs, c, hg⟩
  · exact absurd hg h.containers
  · have hc : c ∈ g.containers := by simp [hg]
    rw [editAll, hg, List.foldl_append]
    exact isEmpty_editContainer (Container.isEmpty_editAll (h.keys c hc) (h.full c hc)) _ _

theorem Package.foldl_editKey {c : Container} (hc : c.keys ≠ [])
    (hf : ∀ k ∈ c.keys, ∀ x, (f k x).isEmpty = false) (name : String) (x : Package) :
    c.keys.foldl (fun x k => x.editKey name (rename k.id) (f k)) x =
      x.editContainer name (c.editAll rename f) :=
  foldl_editContainer_same (f := fun (k : Key) y => y.editKey (rename k.id) (f k))
    (fun _ _ => rfl)
    (fun k hk y => Container.isEmpty_editKey (hf k hk) y (rename k.id)) hc name x

/-- The edits of the keys of one package are one edit of the project. -/
theorem Project.foldl_editKey_package {g : Package} (h : g.Editable f) (name : String)
    (p : Project) :
    g.containers.foldl (fun p c =>
        c.keys.foldl (fun p k => p.editKey name (rename c.name) (rename k.id) (f k)) p) p =
      p.editPackage name (g.editAll rename f) := by
  have hcontainer (p : Project) (c : Container) (hc : c ∈ g.containers) :
      c.keys.foldl (fun p k => p.editKey name (rename c.name) (rename k.id) (f k)) p =
        p.editPackage name fun y => y.editContainer (rename c.name) (c.editAll rename f) := by
    have hsame := foldl_editPackage_same
      (f := fun (k : Key) y => y.editKey (rename c.name) (rename k.id) (f k)) (fun _ _ => rfl)
      (fun k hk y => Package.isEmpty_editKey (h.full c hc k hk) y (rename c.name) (rename k.id))
      (h.keys c hc) name p
    refine hsame.trans (congrArg (p.editPackage name) ?_)
    funext y
    exact Package.foldl_editKey (h.keys c hc) (h.full c hc) (rename c.name) y
  rw [List.foldl_ext _ _ p fun p c hc => hcontainer p c hc]
  exact foldl_editPackage_same
    (f := fun (c : Container) y => y.editContainer (rename c.name) (c.editAll rename f))
    (fun _ _ => rfl)
    (fun c hc y => Package.isEmpty_editContainer
      (Container.isEmpty_editAll (h.keys c hc) (h.full c hc)) y (rename c.name))
    h.containers name p

/-- **The edits of all keys** are one edit for each package. -/
theorem Project.foldl_editKey {gs : List Package} (h : ∀ g ∈ gs, g.Editable f) (p : Project) :
    gs.foldl (fun p g => g.containers.foldl (fun p c => c.keys.foldl (fun p k =>
        p.editKey (rename g.name) (rename c.name) (rename k.id) (f k)) p) p) p =
      p.editAll rename f gs :=
  List.foldl_ext _ _ p fun p g hg => foldl_editKey_package (h g hg) (rename g.name) p

/-! ## The project that the edits make -/

variable {a : Key → Key}

theorem Container.editAll_new (hid : ∀ k x, (f k x).id = x.id) {c : Container}
    (hv : ∀ k ∈ c.keys, ∀ x, (f k x).isEmpty = false) (hd : c.DistinctUnder rename) :
    c.editAll rename f (.new (rename c.name)) =
      c.image rename fun k => f k (.new (rename k.id)) := by
  have hkeys := Siblings.foldl_edit_new (fun k : Key => Key.new (rename k.id)) Key.isEmpty f
    (fun _ => rfl) hid (fun k hk => hv k hk _) hd []
    (fun _ hx => by cases hx)
  rw [editAll, foldl_editKey fun k : Key => rename k.id]
  exact congrArg (Container.mk (rename c.name)) hkeys

theorem Container.editAll_image (hid : ∀ k x, (f k x).id = x.id) (ha : ∀ k, (a k).id = rename k.id)
    {c : Container} (hv : ∀ k ∈ c.keys, ∀ x, (f k x).isEmpty = false)
    (hd : c.DistinctUnder rename) :
    c.editAll rename f (c.image rename a) = c.image rename fun k => f k (a k) := by
  have hkeys := Siblings.foldl_edit_old (fun k : Key => Key.new (rename k.id)) Key.isEmpty f
    ha hid (fun k hk => hv k hk _) hd [] (fun _ hx => by cases hx)
  rw [editAll, foldl_editKey fun k : Key => rename k.id]
  exact congrArg (Container.mk (rename c.name)) hkeys

theorem Package.editAll_new (hid : ∀ k x, (f k x).id = x.id) {g : Package} (h : g.Editable f)
    (hd : g.DistinctUnder rename) :
    g.editAll rename f (.new (rename g.name)) =
      g.image rename fun k => f k (.new (rename k.id)) := by
  have hcontainers := Siblings.foldl_edit_new
    (fun c : Container => Container.new (rename c.name)) Container.isEmpty
    (fun c => c.editAll rename f) (fun _ => rfl) Container.name_editAll
    (fun c hc => Container.isEmpty_editAll (h.keys c hc) (h.full c hc) _) hd.1 []
    (fun _ hx => by cases hx)
  rw [editAll, foldl_editContainer fun c : Container => rename c.name]
  refine congrArg (Package.mk (rename g.name)) (hcontainers.trans ?_)
  exact List.map_congr_left fun c hc => Container.editAll_new hid (h.full c hc) (hd.2 c hc)

theorem Package.editAll_image (hid : ∀ k x, (f k x).id = x.id) (ha : ∀ k, (a k).id = rename k.id)
    {g : Package} (h : g.Editable f) (hd : g.DistinctUnder rename) :
    g.editAll rename f (g.image rename a) = g.image rename fun k => f k (a k) := by
  have hcontainers := Siblings.foldl_edit_old (a := Container.image rename a)
    (fun c : Container => Container.new (rename c.name)) Container.isEmpty
    (fun c => c.editAll rename f) (fun _ => rfl) Container.name_editAll
    (fun c hc => Container.isEmpty_editAll (h.keys c hc) (h.full c hc) _) hd.1 []
    (fun _ hx => by cases hx)
  rw [editAll, foldl_editContainer fun c : Container => rename c.name]
  refine congrArg (Package.mk (rename g.name)) (hcontainers.trans ?_)
  exact List.map_congr_left fun c hc => Container.editAll_image hid ha (h.full c hc) (hd.2 c hc)

/-- **Edits of an empty project make the packages.** -/
theorem Project.editAll_empty (hid : ∀ k x, (f k x).id = x.id) {gs : List Package}
    (h : ∀ g ∈ gs, g.Editable f) (hd : DistinctUnder rename gs) (name : String) :
    (Project.new name).editAll rename f gs =
      ⟨name, gs.map (Package.image rename fun k => f k (.new (rename k.id)))⟩ := by
  have hpackages := Siblings.foldl_edit_new
    (fun g : Package => Package.new (rename g.name)) Package.isEmpty
    (fun g => g.editAll rename f) (fun _ => rfl) Package.name_editAll
    (fun g hg => Package.isEmpty_editAll (h g hg) _) hd.1 [] (fun _ hx => by cases hx)
  rw [editAll, foldl_editPackage fun g : Package => rename g.name]
  refine congrArg (Project.mk name) (hpackages.trans ?_)
  exact List.map_congr_left fun g hg => Package.editAll_new hid (h g hg) (hd.2 g hg)

/-- **Edits of a project that has the packages change their keys in place.** -/
theorem Project.editAll_image (hid : ∀ k x, (f k x).id = x.id) (ha : ∀ k, (a k).id = rename k.id)
    {gs : List Package} (h : ∀ g ∈ gs, g.Editable f) (hd : DistinctUnder rename gs)
    (name : String) :
    (Project.mk name (gs.map (Package.image rename a))).editAll rename f gs =
      ⟨name, gs.map (Package.image rename fun k => f k (a k))⟩ := by
  have hpackages := Siblings.foldl_edit_old (a := Package.image rename a)
    (fun g : Package => Package.new (rename g.name)) Package.isEmpty
    (fun g => g.editAll rename f) (fun _ => rfl) Package.name_editAll
    (fun g hg => Package.isEmpty_editAll (h g hg) _) hd.1 [] (fun _ hx => by cases hx)
  rw [editAll, foldl_editPackage fun g : Package => rename g.name]
  refine congrArg (Project.mk name) (hpackages.trans ?_)
  exact List.map_congr_left fun g hg => Package.editAll_image hid ha (h g hg) (hd.2 g hg)

end

/-! ## The writes of a project -/

/-- What a test drops adds nothing. -/
theorem flatMap_filter_of_nil {α β : Type} {f : α → List β} {keep : α → Bool} {xs : List α}
    (h : ∀ x ∈ xs, keep x = false → f x = []) : (xs.filter keep).flatMap f = xs.flatMap f := by
  induction xs with
  | nil => rfl
  | cons x xs ih =>
    have ih := ih fun y hy => h y (List.mem_cons_of_mem _ hy)
    by_cases hx : keep x = true
    · rw [List.filter_cons_of_pos hx, List.flatMap_cons, ih, List.flatMap_cons]
    · have hx : keep x = false := by simpa using hx
      rw [List.filter_cons_of_neg (by simp [hx]), ih, List.flatMap_cons,
        h x List.mem_cons_self hx, List.nil_append]

/-- Two edits of one key are one edit, unless the first empties the key. -/
theorem Project.editKey_editKey {f g : Key → Key} (hid : ∀ k, (f k).id = k.id)
    (hf : ∀ k, (f k).isEmpty = false) (hg : ∀ k, (g (f k)).isEmpty = false) (p : Project)
    (package container id : String) :
    (p.editKey package container id f).editKey package container id g =
      p.editKey package container id (g ∘ f) := by
  have hkey : Named.name (Key.new id) = id := rfl
  have hcontainer : Named.name (Container.new container) = container := rfl
  have hpackage : Named.name (Package.new package) = package := rfl
  have hc (c : Container) : (c.editKey id f).editKey id g = c.editKey id (g ∘ f) :=
    congrArg (Container.mk c.name) (Siblings.edit_edit Key.isEmpty hkey hid hf hg c.keys)
  have hp (q : Package) :
      (q.editKey container id f).editKey container id g = q.editKey container id (g ∘ f) := by
    have hedit := Siblings.edit_edit Container.isEmpty (f := (·.editKey id f))
      (g := (·.editKey id g)) hcontainer (fun _ => rfl)
      (fun c => Container.isEmpty_editKey hf c id)
      (fun c => by rw [hc c]; exact Container.isEmpty_editKey hg c id) q.containers
    refine (congrArg (Package.mk q.name) hedit).trans (congrArg (q.editContainer container) ?_)
    funext c
    exact hc c
  have hedit := Siblings.edit_edit Package.isEmpty (f := (·.editKey container id f))
    (g := (·.editKey container id g)) hpackage (fun _ => rfl)
    (fun q => Package.isEmpty_editKey hf q container id)
    (fun q => by rw [hp q]; exact Package.isEmpty_editKey hg q container id) p.packages
  refine (congrArg (Project.mk p.name) hedit).trans (congrArg (p.editPackage package) ?_)
  funext q
  exact hp q

/-- The key with all texts of some translations. -/
def Key.setAll (ts : List Translation) (k : Key) : Key :=
  ts.foldl (fun k t => k.set t.language t.text) k

theorem Key.id_setAll (ts : List Translation) (k : Key) : (k.setAll ts).id = k.id := by
  induction ts generalizing k with
  | nil => rfl
  | cons t ts ih => exact ih (k.set t.language t.text)

theorem Key.isEmpty_setAll {ts : List Translation} (h : ts ≠ []) (ht : ∀ t ∈ ts, t.text ≠ "")
    (k : Key) : (k.setAll ts).isEmpty = false := by
  rcases List.eq_nil_or_concat' ts with hts | ⟨us, t, rfl⟩
  · exact absurd hts h
  · rw [setAll, List.foldl_append]
    exact isEmpty_set (ht t (by simp)) _ t.language

/-- Translations after some texts are set. -/
def withTexts (ts xs : List Translation) : List Translation :=
  ts.foldl (fun xs t =>
    Siblings.edit t.language ⟨t.language, ""⟩ (·.text.isEmpty) (fun x => { x with text := t.text })
      xs) xs

theorem Key.translations_setAll (ts : List Translation) (k : Key) :
    (k.setAll ts).translations = withTexts ts k.translations := by
  induction ts generalizing k with
  | nil => rfl
  | cons t ts ih => exact ih (k.set t.language t.text)

/-- **Texts in new languages**, in order, come last. -/
theorem withTexts_of_new {ts : List Translation} (hfull : ∀ t ∈ ts, t.text ≠ "")
    (hd : Siblings.Distinct ts) (xs : List Translation)
    (hxs : ∀ x ∈ xs, ∀ t ∈ ts, sameFolded x.language t.language = false) :
    withTexts ts xs = xs ++ ts := by
  have hname (t : Translation) : Named.name (⟨t.language, ""⟩ : Translation) = t.language := rfl
  have hd : DistinctNames Translation.language ts := hd
  have hnew := Siblings.foldl_edit_new
    (fun t : Translation => (⟨t.language, ""⟩ : Translation)) (·.text.isEmpty)
    (fun t x => { x with text := t.text }) hname (fun _ _ => rfl)
    (fun t ht => String.isEmpty_eq_false_iff.2 (hfull t ht)) hd xs hxs
  exact hnew.trans (congrArg (xs ++ ·) (List.map_id ts))

/-- Texts that are there are set again. -/
theorem withTexts_of_old {ts : List Translation} (hfull : ∀ t ∈ ts, t.text ≠ "")
    (hd : Siblings.Distinct ts) (xs : List Translation)
    (hxs : ∀ x ∈ xs, ∀ t ∈ ts, sameFolded x.language t.language = false) :
    withTexts ts (xs ++ ts) = xs ++ ts := by
  have hname (t : Translation) : Named.name t = t.language := rfl
  have hd : DistinctNames Translation.language ts := hd
  have hold := Siblings.foldl_edit_old (a := id)
    (fun t : Translation => (⟨t.language, ""⟩ : Translation)) (·.text.isEmpty)
    (fun t x => { x with text := t.text }) hname (fun _ _ => rfl)
    (fun t ht => String.isEmpty_eq_false_iff.2 (hfull t ht)) hd xs hxs
  rw [List.map_id] at hold
  exact hold.trans (congrArg (xs ++ ·) (List.map_id ts))

theorem Key.WellFormed.withTexts_nil {k : Key} (h : k.WellFormed) :
    withTexts k.translations [] = k.translations :=
  withTexts_of_new (fun t ht => String.isEmpty_eq_false_iff.1 (h.full t ht)) h.distinct []
    fun _ hx => by cases hx

theorem Key.WellFormed.setAll_new {k : Key} (h : k.WellFormed) :
    (Key.new k.id).setAll k.translations = k :=
  congrArg₂ Key.mk (Key.id_setAll k.translations (.new k.id))
    ((Key.translations_setAll k.translations (.new k.id)).trans h.withTexts_nil)

theorem Project.setAll_key {ts : List Translation} (h : ts ≠ []) (ht : ∀ t ∈ ts, t.text ≠ "")
    (p : Project) (package container id : String) :
    p.setAll (ts.map fun t => (⟨package, container, id, t.language⟩, t.text)) =
      p.editKey package container id (·.setAll ts) := by
  induction ts generalizing p with
  | nil => exact absurd rfl h
  | cons t ts ih =>
    have hset : p.set ⟨package, container, id, t.language⟩ t.text =
      p.editKey package container id (·.set t.language t.text) := rfl
    rw [List.map_cons, setAll_cons, hset]
    have hrest : ∀ u ∈ ts, u.text ≠ "" := fun u hu => ht u (List.mem_cons_of_mem _ hu)
    by_cases hts : ts = []
    · subst hts
      rfl
    · have htwo := editKey_editKey (f := (·.set t.language t.text)) (g := (·.setAll ts))
        (fun _ => rfl) (fun k => Key.isEmpty_set (ht t List.mem_cons_self) k t.language)
        (fun k => Key.isEmpty_setAll hts hrest _) p package container id
      rw [ih hts hrest, htwo]
      rfl

/-- The texts of a project with their addresses, in declaration order. -/
def Project.writes (p : Project) : List (Address × String) :=
  p.packages.flatMap fun g => g.containers.flatMap fun c => c.keys.flatMap fun k =>
    k.translations.map fun t => (⟨g.name, c.name, k.id, t.language⟩, t.text)

theorem Project.WellFormed.editable {p : Project} (h : p.WellFormed) :
    ∀ g ∈ p.packages, g.Editable fun k => Key.setAll k.translations := by
  intro g hg
  have hwell := h.each g hg
  refine ⟨List.isEmpty_eq_false_iff.1 (h.full g hg), ?_, ?_⟩
  · intro c hc
    exact List.isEmpty_eq_false_iff.1 (hwell.full c hc)
  · intro c hc k hk
    have hkeys := hwell.each c hc
    exact Key.isEmpty_setAll (List.isEmpty_eq_false_iff.1 (hkeys.full k hk))
      fun t ht => String.isEmpty_eq_false_iff.1 ((hkeys.each k hk).full t ht)

theorem Project.WellFormed.distinctUnder {p : Project} (h : p.WellFormed) :
    DistinctUnder (fun name => name) p.packages :=
  ⟨h.distinct, fun g hg => ⟨(h.each g hg).distinct, fun c hc =>
    ((h.each g hg).each c hc).distinct⟩⟩

/-- **The writes of a well-formed project make it again.** -/
theorem Project.WellFormed.setAll_writes {p : Project} (h : p.WellFormed) :
    (Project.new p.name).setAll p.writes = p := by
  have hfold : (Project.new p.name).setAll p.writes =
      (Project.new p.name).editAll (fun name => name) (fun k => Key.setAll k.translations)
        p.packages := by
    rw [← foldl_editKey h.editable, Project.setAll, writes, List.foldl_flatMap]
    refine List.foldl_ext _ _ _ fun q g hg => ?_
    rw [List.foldl_flatMap]
    refine List.foldl_ext _ _ _ fun q c hc => ?_
    rw [List.foldl_flatMap]
    refine List.foldl_ext _ _ _ fun q k hk => ?_
    have hkeys := (h.each g hg).each c hc
    exact setAll_key (List.isEmpty_eq_false_iff.1 (hkeys.full k hk))
      (fun t ht => String.isEmpty_eq_false_iff.1 ((hkeys.each k hk).full t ht)) q g.name c.name
      k.id
  have hcontainer : ∀ g ∈ p.packages, ∀ c ∈ g.containers,
      c.image (fun name => name) (fun k => (Key.new k.id).setAll k.translations) = c := by
    intro g hg c hc
    have hkeys : c.keys.map (fun k => (Key.new k.id).setAll k.translations) = c.keys.map id :=
      List.map_congr_left fun k hk => (((h.each g hg).each c hc).each k hk).setAll_new
    rw [Container.image, hkeys, List.map_id]
  have hpackage : ∀ g ∈ p.packages,
      g.image (fun name => name) (fun k => (Key.new k.id).setAll k.translations) = g := by
    intro g hg
    have hcontainers := List.map_congr_left (g := id) (hcontainer g hg)
    rw [Package.image, hcontainers, List.map_id]
  rw [hfold, editAll_empty (fun k x => Key.id_setAll k.translations x) h.editable h.distinctUnder,
    List.map_congr_left (g := id) hpackage, List.map_id]

end MissionText
