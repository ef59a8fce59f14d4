/-
  Projects with the same keys.

  * `Project.Alike`: the same packages, containers and keys in the same order and
    with the same spelling, whatever texts the keys have.
  * `Alike.editKey`: edits of one key keep projects alike.
  * `Alike.eq`: projects that are alike and have the same translations everywhere
    are equal.
-/
import Mathlib.Data.List.Forall2
import MissionText.Proofs.Catalog.Place

namespace MissionText

open List (Forall₂)

/-! ## Related siblings -/

namespace Siblings

variable {α : Type} [Named α] {r : α → α → Prop} {xs ys : List α}
  (hr : ∀ x y, r x y → Named.name x = Named.name y)

include hr in
/-- Edits of one child keep siblings related, if neither drops it. -/
theorem forall₂_edit (h : Forall₂ r xs ys) {n : String} {create : α} {isVoid : α → Bool}
    {f g : α → α} (hc : r create create) (hfg : ∀ x y, r x y → r (f x) (g y))
    (hf : ∀ x, isVoid (f x) = false) (hg : ∀ x, isVoid (g x) = false) :
    Forall₂ r (edit n create isVoid f xs) (edit n create isVoid g ys) := by
  unfold edit
  induction h with
  | nil => simp [alter, hf, hg, hfg create create hc]
  | @cons x y xs ys hxy hrest ih =>
    rw [alter, alter, hr x y hxy]
    split_ifs
    · simpa [hf, hg] using ⟨hfg x y hxy, hrest⟩
    · exact .cons hxy ih

include hr in
/-- What is found among related siblings is related. -/
theorem find?_of_forall₂ (h : Forall₂ r xs ys) (n : String) :
    (find? n xs = none ∧ find? n ys = none) ∨
      ∃ x y, find? n xs = some x ∧ find? n ys = some y ∧ r x y := by
  induction h with
  | nil => exact .inl ⟨rfl, rfl⟩
  | @cons x y xs ys hxy hrest ih =>
    have hname := hr x y hxy
    by_cases hx : sameFolded (Named.name x) n = true
    · rw [find?_cons_of_same hx, find?_cons_of_same (hname ▸ hx)]
      exact .inr ⟨x, y, rfl, rfl, hxy⟩
    · have hx : sameFolded (Named.name x) n = false := by simpa using hx
      rw [find?_cons_of_not_same hx, find?_cons_of_not_same (hname ▸ hx)]
      exact ih

include hr in
theorem getD_find?_of_forall₂ (h : Forall₂ r xs ys) (create : α) (hc : r create create)
    (n : String) : r ((find? n xs).getD create) ((find? n ys).getD create) := by
  rcases find?_of_forall₂ hr h n with ⟨hx, hy⟩ | ⟨x, y, hx, hy, hxy⟩
  · rw [hx, hy]
    exact hc
  · rw [hx, hy]
    exact hxy

omit [Named α] in
theorem eq_of_forall₂ (h : Forall₂ r xs ys) (heq : ∀ x ∈ xs, ∀ y ∈ ys, r x y → x = y) :
    xs = ys := by
  induction h with
  | nil => rfl
  | @cons x y xs ys hxy hrest ih =>
    rw [heq x List.mem_cons_self y List.mem_cons_self hxy,
      ih fun x' hx' y' hy' => heq x' (List.mem_cons_of_mem _ hx') y' (List.mem_cons_of_mem _ hy')]

end Siblings

/-! ## Alike nodes -/

/-- The same name and the same keys. -/
structure Container.Alike (c d : Container) : Prop where
  name : c.name = d.name
  keys : Forall₂ (fun k l : Key => k.id = l.id) c.keys d.keys

/-- The same name and the same containers. -/
structure Package.Alike (g h : Package) : Prop where
  name : g.name = h.name
  containers : Forall₂ Container.Alike g.containers h.containers

/-- The same name and the same packages. -/
structure Project.Alike (p q : Project) : Prop where
  name : p.name = q.name
  packages : Forall₂ Package.Alike p.packages q.packages

theorem Container.alike_new (name : String) : (new name).Alike (new name) := ⟨rfl, .nil⟩

theorem Package.alike_new (name : String) : (new name).Alike (new name) := ⟨rfl, .nil⟩

theorem Project.alike_new (name : String) : (new name).Alike (new name) := ⟨rfl, .nil⟩

/-! ## Edits -/

section Edit

variable {f g : Key → Key} (hfid : ∀ k, (f k).id = k.id) (hgid : ∀ k, (g k).id = k.id)
  (hf : ∀ k, (f k).isEmpty = false) (hg : ∀ k, (g k).isEmpty = false)
include hfid hgid hf hg

theorem Container.Alike.editKey {c d : Container} (h : c.Alike d) (id : String) :
    (c.editKey id f).Alike (d.editKey id g) := by
  refine ⟨h.name, Siblings.forall₂_edit (fun _ _ h => h) h.keys rfl ?_ hf hg⟩
  intro k l hkl
  exact (hfid k).trans (hkl.trans (hgid l).symm)

theorem Package.Alike.editKey {x y : Package} (h : x.Alike y) (container id : String) :
    (x.editKey container id f).Alike (y.editKey container id g) :=
  ⟨h.name, Siblings.forall₂_edit (fun _ _ h => h.name) h.containers (Container.alike_new container)
    (fun _ _ hcd => hcd.editKey hfid hgid hf hg id)
    (fun c => Container.isEmpty_editKey hf c id) (fun c => Container.isEmpty_editKey hg c id)⟩

/-- **Edits of one key** keep projects alike. -/
theorem Project.Alike.editKey {p q : Project} (h : p.Alike q) (package container id : String) :
    (p.editKey package container id f).Alike (q.editKey package container id g) :=
  ⟨h.name, Siblings.forall₂_edit (fun _ _ h => h.name) h.packages (Package.alike_new package)
    (fun _ _ hxy => hxy.editKey hfid hgid hf hg container id)
    (fun x => Package.isEmpty_editKey hf x container id)
    (fun x => Package.isEmpty_editKey hg x container id)⟩

end Edit

/-! ## Lookups -/

namespace Project

variable {p q : Project}

theorem Alike.place_target (h : p.Alike q) (a : Address) : (p.target a).place = (q.target a).place := by
  have hpackage := Siblings.getD_find?_of_forall₂ (fun _ _ h => h.name) h.packages
    (.new a.package) (Package.alike_new a.package) a.package
  have hcontainer := Siblings.getD_find?_of_forall₂ (fun _ _ h => h.name) hpackage.containers
    (.new a.container) (Container.alike_new a.container) a.container
  have hkey := Siblings.getD_find?_of_forall₂ (fun _ _ h => h) hcontainer.keys (.new a.key) rfl
    a.key
  simp only [KeyMatch.place, Address.mk.injEq, and_true]
  exact ⟨hpackage.name, hcontainer.name, hkey⟩

theorem Alike.locate?_eq_none_iff (h : p.Alike q) (a : Address) :
    p.locate? a = none ↔ q.locate? a = none := by
  unfold locate? package?
  rcases Siblings.find?_of_forall₂ (fun _ _ h => h.name) h.packages a.package with
    ⟨hx, hy⟩ | ⟨x, y, hx, hy, hxy⟩
  · simp [hx, hy]
  · rw [hx, hy, Option.bind_some, Option.bind_some, Package.locate?, Package.locate?,
      Package.container?, Package.container?]
    rcases Siblings.find?_of_forall₂ (fun _ _ h => h.name) hxy.containers a.container with
      ⟨hc, hd⟩ | ⟨c, d, hc, hd, hcd⟩
    · simp [hc, hd]
    · rw [hc, hd, Option.bind_some, Option.bind_some, Container.key?, Container.key?]
      rcases Siblings.find?_of_forall₂ (fun _ _ h => h) hcd.keys a.key with
        ⟨hk, hl⟩ | ⟨k, l, hk, hl, -⟩
      · simp [hk, hl]
      · simp [hk, hl]

/-- Alike projects know the same ids. -/
theorem Alike.findKey?_eq_none_iff (h : p.Alike q) (hp : p.WellFormed) (hq : q.WellFormed)
    (id : String) : p.findKey? id = none ↔ q.findKey? id = none := by
  simp only [hp.findKey?_eq_none_iff, hq.findKey?_eq_none_iff, h.locate?_eq_none_iff]

/-- **Texts of keys at one place** keep projects alike.  The second place may also
    be spelled as the projects do. -/
theorem Alike.setAll_writes (h : p.Alike q) {m n : KeyMatch} (hm : m.HasTexts) (hn : n.HasTexts)
    (hplace : n.place = m.place ∨ n.place = (p.target m.place).place) :
    (p.setAll m.writes).Alike (q.setAll n.writes) := by
  have hedit (f : Key → Key) : q.editKey n.place.package n.place.container n.place.key f =
      q.editKey m.place.package m.place.container m.place.key f := by
    rcases hplace with hplace | hplace
    · rw [hplace]
    · rw [hplace, h.place_target]
      exact q.editKey_target m.place f
  rw [setAll_writes_eq_editKey hm, setAll_writes_eq_editKey hn, hedit]
  exact h.editKey (Key.id_setAll _) (Key.id_setAll _) hm.isEmpty_setAll hn.isEmpty_setAll _ _ _

/-! ## Equality -/

/-- **Projects that are alike** and have the same translations everywhere are
    equal. -/
theorem Alike.eq (h : p.Alike q) (hp : p.WellFormed) (hq : q.WellFormed)
    (ht : ∀ a m n, p.locate? a = some m → q.locate? a = some n →
      m.key.translations = n.key.translations) : p = q := by
  have hpackages : p.packages = q.packages := by
    refine Siblings.eq_of_forall₂ h.packages fun g hg g' hg' hgg => ?_
    have hcontainers : g.containers = g'.containers := by
      refine Siblings.eq_of_forall₂ hgg.containers fun c hc c' hc' hcc => ?_
      have hkeys : c.keys = c'.keys := by
        refine Siblings.eq_of_forall₂ hcc.keys fun k hk k' hk' hkk => ?_
        have hfound := hq.locate?_of_mem hg' hc' hk'
        rw [← hgg.name, ← hcc.name, ← hkk] at hfound
        have htranslations := ht _ _ _ (hp.locate?_of_mem hg hc hk) hfound
        exact congrArg₂ Key.mk hkk htranslations
      exact congrArg₂ Container.mk hcc.name hkeys
    exact congrArg₂ Package.mk hgg.name hcontainers
  exact congrArg₂ Project.mk h.name hpackages

end Project

end MissionText
