/-
  The names that a catalog lists.

  * `Relists` is what a write makes of the names of the children of one node: it
    leaves them, puts a new one last, or drops one.
  * `Project.names` are the names at a level on the way to an address, which are those
    of the children of every node (`names_of_mem`).  `names_set` says what a write makes
    of them.
  * `lists_names_iff`: what is listed are the children that have a text, or have one
    below them.
  * `IsRelisted` puts both together for one call: what it puts last is the name with
    which it first gives a child a text, and what it drops is the name of a child
    without any text left.
-/
import MissionText.Proofs.Catalog.Rebuild
import MissionText.Proofs.Catalog.TextMap

namespace MissionText

/-! ## Lists of names -/

/-- The name is listed, in some spelling. -/
def Lists (n : String) (ns : List String) : Prop := ∃ m ∈ ns, sameFolded m n = true

instance (n : String) (ns : List String) : Decidable (Lists n ns) :=
  inferInstanceAs (Decidable (∃ m ∈ ns, sameFolded m n = true))

/-- What becomes of the names of the children of a node when something is set below
    the child of a name. -/
inductive Relists (n : String) (ns : List String) : List String → Prop where
  /-- The child is there before and after. -/
  | kept (h : Lists n ns) : Relists n ns ns
  /-- The child is created. -/
  | created (h : ¬ Lists n ns) : Relists n ns (ns ++ [n])
  /-- The child is not there afterwards. -/
  | dropped : Relists n ns (ns.filter fun m => !sameFolded m n)

section

variable {n m : String} {ns ms : List String}

theorem Lists.of_mem (h : n ∈ ns) : Lists n ns := ⟨n, h, sameFolded_refl n⟩

theorem filter_lists_of_subset (h : ns ⊆ ms) : ns.filter (Lists · ms) = ns :=
  List.filter_eq_self.2 fun _ hm => decide_eq_true (Lists.of_mem (h hm))

theorem lists_filter_iff : Lists m (ns.filter fun m => !sameFolded m n) ↔
    Lists m ns ∧ sameFolded m n = false := by
  simp only [Lists, List.mem_filter, Bool.not_eq_eq_eq_not, Bool.not_true]
  constructor
  · rintro ⟨l, ⟨hl, hn⟩, hm⟩
    rw [sameFolded_left hm] at hn
    exact ⟨⟨l, hl, hm⟩, hn⟩
  · rintro ⟨⟨l, hl, hm⟩, hn⟩
    rw [← sameFolded_left hm] at hn
    exact ⟨l, ⟨hl, hn⟩, hm⟩

theorem not_lists_filter : ¬ Lists n (ns.filter fun m => !sameFolded m n) := by
  rw [lists_filter_iff, sameFolded_refl]
  simp

theorem Relists.eq_of_lists (h : Relists n ns ms) (hn : Lists n ns) (hm : Lists n ms) :
    ms = ns := by
  cases h with
  | kept => rfl
  | created hnew => exact absurd hn hnew
  | dropped => exact absurd hm not_lists_filter

theorem Relists.eq_append (h : Relists n ns ms) (hn : ¬ Lists n ns) (hm : Lists n ms) :
    ms = ns ++ [n] := by
  cases h with
  | kept hold => exact absurd hold hn
  | created => rfl
  | dropped => exact absurd hm not_lists_filter

theorem Relists.eq_filter (h : Relists n ns ms) (hm : ¬ Lists n ms) :
    ms = ns.filter fun m => !sameFolded m n := by
  cases h with
  | kept hold => exact absurd hold hm
  | created => exact absurd (Lists.of_mem (by simp)) hm
  | dropped => rfl

theorem Relists.eq_of_append (h : Relists n ns (ns ++ [m])) : n = m := by
  generalize hms : ns ++ [m] = ms at h
  have hlength : ns.length < ms.length := by simp [← hms]
  cases h with
  | kept => omega
  | created => exact (List.singleton_inj.1 (List.append_cancel_left hms)).symm
  | dropped => exact absurd (List.length_filter_le _ ns) (Nat.not_le.2 hlength)

/-- In all cases the names that are still listed come first, in their order, and
    after them at most the name that is set, if it was not listed. -/
theorem Relists.exists_eq_filter_append (h : Relists n ns ms) :
    ∃ new, ms = ns.filter (Lists · ms) ++ new ∧
      (new = [] ∨ new = [n] ∧ ¬ Lists n ns ∧ Lists n ms) := by
  cases h with
  | kept hold =>
    refine ⟨[], ?_, .inl rfl⟩
    rw [filter_lists_of_subset (List.Subset.refl ns), List.append_nil]
  | created hnew =>
    refine ⟨[n], ?_, .inr ⟨rfl, hnew, Lists.of_mem (by simp)⟩⟩
    rw [filter_lists_of_subset (List.subset_append_left ns [n])]
  | dropped =>
    refine ⟨[], ?_, .inl rfl⟩
    rw [List.append_nil]
    refine List.filter_congr fun m hm => ?_
    have hlisted : Lists m ns := Lists.of_mem hm
    simp only [lists_filter_iff, hlisted, true_and]
    cases sameFolded m n with
    | true => rfl
    | false => rfl

end

/-! ## Names of children -/

namespace Siblings

variable {α : Type} [Named α]

/-- The names of children. -/
def names (xs : List α) : List String := xs.map Named.name

/-- What is below the child of a name. -/
def below {β : Type} (n : String) (g : α → List β) (xs : List α) : List β :=
  ((find? n xs).map g).getD []

theorem lists_names_iff {n : String} {xs : List α} :
    Lists n (names xs) ↔ (find? n xs).isSome = true := by
  simp only [Lists, names, List.mem_map, exists_exists_and_eq_and, find?, List.find?_isSome]

theorem find?_below {β : Type} [Named β] (n m : String) (g : α → List β) (xs : List α) :
    find? n (below m g xs) = (find? m xs).bind fun x => find? n (g x) := by
  unfold below
  cases find? m xs with
  | none => rfl
  | some x => rfl

theorem Distinct.below_of_mem {β : Type} {g : α → List β} {xs : List α} (h : Distinct xs) {x : α}
    (hx : x ∈ xs) : below (Named.name x) g xs = g x := by
  rw [below, h.find?_of_mem hx]
  rfl

variable {n : String} {create : α} {isVoid : α → Bool} {f : α → α}

/-- **The names after an edit.** -/
theorem names_edit {xs : List α} (h : Distinct xs) (hc : Named.name create = n)
    (hf : ∀ x, Named.name (f x) = Named.name x) :
    Relists n (names xs) (names (edit n create isVoid f xs)) := by
  have hself {ys : List α} (hys : ∀ y ∈ ys, sameFolded (Named.name y) n = false) :
      (names ys).filter (fun m => !sameFolded m n) = names ys := by
    refine List.filter_eq_self.2 fun m hm => ?_
    obtain ⟨y, hy, rfl⟩ := List.mem_map.1 hm
    rw [hys y hy]
    rfl
  rcases split_or_missing n xs with ⟨before, x, after, rfl, hb, hx⟩ | hmissing
  · have hafter : ∀ y ∈ after, sameFolded (Named.name y) n = false := by
      have htail : Distinct (x :: after) := (List.pairwise_append.1 h).2.1
      exact find?_eq_none_iff.1 (htail.find?_tail hx)
    rcases hv : isVoid (f x) with _ | _
    · have hsame : names (before ++ f x :: after) = names (before ++ x :: after) := by
        simp only [names, List.map_append, List.map_cons, hf]
      rw [edit_append_cons after hb hx hv, hsame]
      exact .kept ⟨Named.name x, by simp [names], hx⟩
    · have hdrop : names (before ++ after) =
          (names (before ++ x :: after)).filter fun m => !sameFolded m n := by
        have hsplit : names (before ++ x :: after) = names before ++ Named.name x :: names after :=
          by simp [names]
        rw [hsplit, List.filter_append, List.filter_cons, hx, hself hb, hself hafter, names,
          List.map_append]
        rfl
      rw [edit_append_cons_of_void after hb hx hv, hdrop]
      exact .dropped
  · rcases hv : isVoid (f create) with _ | _
    · have hlast : names (xs ++ [f create]) = names xs ++ [n] := by simp [names, hf, hc]
      rw [edit_of_missing hmissing hv, hlast]
      exact .created (by rw [lists_names_iff, find?_eq_none_iff.2 hmissing]; simp)
    · rw [edit_of_missing_void hmissing hv]
      have hdropped : Relists n (names xs) ((names xs).filter fun m => !sameFolded m n) := .dropped
      rwa [hself hmissing] at hdropped

theorem wellFormed_below {P : α → Prop} {β : Type} [Named β] {Q : β → Prop} {isVoid' : β → Bool}
    {g : α → List β} {xs : List α} (h : WellFormed P isVoid xs)
    (hg : ∀ x, P x → WellFormed Q isVoid' (g x)) (n : String) :
    WellFormed Q isVoid' (below n g xs) := by
  rw [below]
  rcases hx : find? n xs with _ | x
  · exact WellFormed.nil Q isVoid'
  · exact hg x (h.each x (mem_of_find? hx))

/-- **What is below a child after an edit**: related to what was there before as the
    edit relates it. -/
theorem WellFormed.below_edit {P : α → Prop} {β : Type} {R : List β → List β → Prop}
    {g : α → List β} {xs : List α} (h : WellFormed P isVoid xs) (hc : Named.name create = n)
    (hf : ∀ x, Named.name (f x) = Named.name x) (hP : P create) (hgc : g create = [])
    (hg : ∀ x, isVoid x = true → g x = []) {m : String}
    (hother : sameFolded n m = false → ∀ ys, R ys ys)
    (hsame : sameFolded n m = true → ∀ x, P x → R (g x) (g (f x))) :
    R (below m g xs) (below m g (Siblings.edit n create isVoid f xs)) := by
  by_cases hm : sameFolded n m = true
  · have hbefore : below m g xs = g ((find? n xs).getD create) := by
      rw [below, ← find?_congr hm]
      cases find? n xs with
      | none => exact hgc.symm
      | some x => rfl
    have hafter : below m g (Siblings.edit n create isVoid f xs) =
        g (f ((find? n xs).getD create)) := by
      rw [below, find?_edit isVoid h.distinct hc hf, if_pos hm, edited]
      split
      · next hv => exact (hg _ hv).symm
      · rfl
    rw [hbefore, hafter]
    exact hsame hm _ (h.getD_find? hP n)
  · have hunchanged : below m g (Siblings.edit n create isVoid f xs) = below m g xs := by
      rw [below, find?_edit isVoid h.distinct hc hf, if_neg hm, below]
    rw [hunchanged]
    exact hother (Bool.eq_false_iff.2 hm) _

end Siblings

/-! ## Levels -/

/-- The levels of a catalog below its root. -/
inductive Level where
  | package
  | container
  | key
  | translation
  deriving Repr, DecidableEq

namespace Address

/-- The name at a level. -/
def name (a : Address) : Level → String
  | .package => a.package
  | .container => a.container
  | .key => a.key
  | .translation => a.language

/-- The names, lower-cased, on the way to the node whose children are at a level. -/
def parent (a : Address) : Level → List String
  | .package => []
  | .container => [lowerCased a.package]
  | .key => [lowerCased a.package, lowerCased a.container]
  | .translation => [lowerCased a.package, lowerCased a.container, lowerCased a.key]

theorem parent_container_eq_iff {a b : Address} : a.parent .container = b.parent .container ↔
    sameFolded a.package b.package = true := by
  simp only [parent, List.cons.injEq, and_true, sameFolded_iff]

theorem parent_key_eq_iff {a b : Address} : a.parent .key = b.parent .key ↔
    a.parent .container = b.parent .container ∧ sameFolded a.container b.container = true := by
  simp only [parent, List.cons.injEq, and_true, sameFolded_iff]

theorem parent_translation_eq_iff {a b : Address} : a.parent .translation = b.parent .translation ↔
    a.parent .key = b.parent .key ∧ sameFolded a.key b.key = true := by
  simp only [parent, List.cons.injEq, and_true, sameFolded_iff, and_assoc]

end Address

namespace Project

/-- The names at a level, of the children of the node on the way to an address. -/
def names (p : Project) (a : Address) : Level → List String
  | .package => Siblings.names p.packages
  | .container => Siblings.names (Siblings.below a.package Package.containers p.packages)
  | .key =>
    Siblings.names <| Siblings.below a.container Container.keys <|
      Siblings.below a.package Package.containers p.packages
  | .translation =>
    Siblings.names <| Siblings.below a.key Key.translations <|
      Siblings.below a.container Container.keys <|
        Siblings.below a.package Package.containers p.packages

/-- A child of this name, of the node on the way to an address, has a text or has one
    below it. -/
def Has (p : Project) (a : Address) (l : Level) (n : String) : Prop :=
  ∃ b : Address, b.parent l = a.parent l ∧ sameFolded (b.name l) n = true ∧
    (p.translation? b).isSome = true

end Project

/-! ## One write -/

section Write

variable (a b : Address) (text : String)

/-- What a write to `a` makes of the names at a level on the way to `b`. -/
def Follows (l : Level) (ns ms : List String) : Prop :=
  if a.parent l = b.parent l then Relists (a.name l) ns ms else ms = ns

variable {a b}

theorem Follows.of_ne {l : Level} (h : a.parent l ≠ b.parent l) (ns : List String) :
    Follows a b l ns ns := by
  rw [Follows, if_neg h]

theorem Follows.of_eq {l : Level} (h : a.parent l = b.parent l) {ns ms : List String}
    (hnames : Relists (a.name l) ns ms) : Follows a b l ns ms := by
  rwa [Follows, if_pos h]

/-! What is below the nodes on the way to `b` is related by any `R` to what it was
before the write, if nothing changes where the two addresses part (`hother`), and if
the write to the last node makes something so related of its children (`hsame`). -/

open Siblings (below)

theorem Container.below_set {c : Container} (h : c.WellFormed)
    {R : List Translation → List Translation → Prop}
    (hother : sameFolded a.key b.key = false → ∀ ts, R ts ts)
    (hsame : sameFolded a.key b.key = true → ∀ k : Key, k.WellFormed →
      R k.translations (k.set a.language text).translations) :
    R (below b.key Key.translations c.keys)
      (below b.key Key.translations (c.set a.key a.language text).keys) := by
  rw [keys_set]
  refine Siblings.WellFormed.below_edit h rfl ?_ (Key.wellFormed_new a.key) rfl ?_ hother hsame
  · intro k
    rfl
  · intro k hk
    exact List.isEmpty_iff.1 hk

theorem Package.below_set {g : Package} (h : g.WellFormed) {R : List Key → List Key → Prop}
    (hother : sameFolded a.container b.container = false → ∀ ks, R ks ks)
    (hsame : sameFolded a.container b.container = true → ∀ c : Container, c.WellFormed →
      R c.keys (c.set a.key a.language text).keys) :
    R (below b.container Container.keys g.containers)
      (below b.container Container.keys
        (g.set a.container a.key a.language text).containers) := by
  rw [containers_set]
  refine Siblings.WellFormed.below_edit h rfl ?_ (Container.wellFormed_new a.container) rfl ?_
    hother hsame
  · intro c
    rfl
  · intro c hc
    exact List.isEmpty_iff.1 hc

theorem Project.containers_below_set {p : Project} (h : p.WellFormed)
    {R : List Container → List Container → Prop}
    (hother : a.parent .container ≠ b.parent .container → ∀ cs, R cs cs)
    (hsame : a.parent .container = b.parent .container → ∀ g : Package, g.WellFormed →
      R g.containers (g.set a.container a.key a.language text).containers) :
    R (below b.package Package.containers p.packages)
      (below b.package Package.containers (p.set a text).packages) := by
  rw [ne_eq, Address.parent_container_eq_iff, Bool.not_eq_true] at hother
  rw [Address.parent_container_eq_iff] at hsame
  rw [packages_set]
  refine Siblings.WellFormed.below_edit h rfl ?_ (Package.wellFormed_new a.package) rfl ?_
    hother hsame
  · intro g
    rfl
  · intro g hg
    exact List.isEmpty_iff.1 hg

theorem Project.keys_below_set {p : Project} (h : p.WellFormed) {R : List Key → List Key → Prop}
    (hother : a.parent .key ≠ b.parent .key → ∀ ks, R ks ks)
    (hsame : a.parent .key = b.parent .key → ∀ c : Container, c.WellFormed →
      R c.keys (c.set a.key a.language text).keys) :
    R (below b.container Container.keys (below b.package Package.containers p.packages))
      (below b.container Container.keys
        (below b.package Package.containers (p.set a text).packages)) := by
  refine containers_below_set text h (R := fun cs ds =>
    R (below b.container Container.keys cs) (below b.container Container.keys ds)) ?_ ?_
  · intro hne _
    exact hother (fun heq => hne (Address.parent_key_eq_iff.1 heq).1) _
  · intro heq g hg
    refine Package.below_set text hg ?_ ?_
    · intro hne
      refine hother fun heq => ?_
      rw [(Address.parent_key_eq_iff.1 heq).2] at hne
      cases hne
    · intro hc
      exact hsame (Address.parent_key_eq_iff.2 ⟨heq, hc⟩)

theorem Project.translations_below_set {p : Project} (h : p.WellFormed)
    {R : List Translation → List Translation → Prop}
    (hother : a.parent .translation ≠ b.parent .translation → ∀ ts, R ts ts)
    (hsame : a.parent .translation = b.parent .translation → ∀ k : Key, k.WellFormed →
      R k.translations (k.set a.language text).translations) :
    R (below b.key Key.translations <|
        below b.container Container.keys <| below b.package Package.containers p.packages)
      (below b.key Key.translations <| below b.container Container.keys <|
        below b.package Package.containers (p.set a text).packages) := by
  refine keys_below_set text h (R := fun ks ls =>
    R (below b.key Key.translations ks) (below b.key Key.translations ls)) ?_ ?_
  · intro hne _
    exact hother (fun heq => hne (Address.parent_translation_eq_iff.1 heq).1) _
  · intro heq c hc
    refine Container.below_set text hc ?_ ?_
    · intro hne
      refine hother fun heq => ?_
      rw [(Address.parent_translation_eq_iff.1 heq).2] at hne
      cases hne
    · intro hk
      exact hsame (Address.parent_translation_eq_iff.2 ⟨heq, hk⟩)

variable (a)

theorem Key.names_set {k : Key} (h : k.WellFormed) : Relists a.language
    (Siblings.names k.translations) (Siblings.names (k.set a.language text).translations) := by
  have hnew : Named.name (⟨a.language, ""⟩ : Translation) = a.language := rfl
  rw [translations_set]
  exact Siblings.names_edit h.distinct hnew fun _ => rfl

theorem Container.names_set {c : Container} (h : c.WellFormed) : Relists a.key
    (Siblings.names c.keys) (Siblings.names (c.set a.key a.language text).keys) := by
  have hnew : Named.name (Key.new a.key) = a.key := rfl
  rw [keys_set]
  exact Siblings.names_edit h.distinct hnew fun _ => rfl

theorem Package.names_set {g : Package} (h : g.WellFormed) : Relists a.container
    (Siblings.names g.containers)
    (Siblings.names (g.set a.container a.key a.language text).containers) := by
  have hnew : Named.name (Container.new a.container) = a.container := rfl
  rw [containers_set]
  exact Siblings.names_edit h.distinct hnew fun _ => rfl

theorem Project.packages_names_set {p : Project} (h : p.WellFormed) : Relists a.package
    (Siblings.names p.packages) (Siblings.names (p.set a text).packages) := by
  have hnew : Named.name (Package.new a.package) = a.package := rfl
  rw [packages_set]
  exact Siblings.names_edit h.distinct hnew fun _ => rfl

variable {a}

/-- **The names after a write**, at every level and on the way to every address. -/
theorem Project.names_set {p : Project} (h : p.WellFormed) (l : Level) :
    Follows a b l (p.names b l) ((p.set a text).names b l) := by
  cases l with
  | package => exact .of_eq rfl (packages_names_set a text h)
  | container =>
    refine containers_below_set text h
      (R := fun cs ds => Follows a b .container (Siblings.names cs) (Siblings.names ds)) ?_ ?_
    · exact fun hne _ => .of_ne hne _
    · exact fun heq g hg => .of_eq heq (Package.names_set a text hg)
  | key =>
    refine keys_below_set text h
      (R := fun ks ls => Follows a b .key (Siblings.names ks) (Siblings.names ls)) ?_ ?_
    · exact fun hne _ => .of_ne hne _
    · exact fun heq c hc => .of_eq heq (Container.names_set a text hc)
  | translation =>
    refine translations_below_set text h
      (R := fun ts us => Follows a b .translation (Siblings.names ts) (Siblings.names us)) ?_ ?_
    · exact fun hne _ => .of_ne hne _
    · exact fun heq k hk => .of_eq heq (Key.names_set a text hk)

end Write

/-! ## What is listed -/

namespace Project

variable {p : Project}

theorem Agrees.exists_setAll {M : TextMap} (h : p.Agrees M) (hp : p.WellFormed)
    (ws : List (Address × String)) : ∃ M', (p.setAll ws).Agrees M' := by
  induction ws generalizing p M with
  | nil => exact ⟨M, h⟩
  | cons w ws ih => exact ih (h.set hp w.1 w.2) (hp.set w.1 w.2)

/-- A well-formed project has the texts of some map, as writes make it. -/
theorem WellFormed.exists_agrees (h : p.WellFormed) : ∃ M, p.Agrees M := by
  have hM := (agrees_new p.name).exists_setAll (wellFormed_new p.name) p.writes
  rwa [h.setAll_writes] at hM

/-- Every node is on the way to an address, and the names there are those of its
    children. -/
theorem WellFormed.names_of_mem (h : p.WellFormed) {g : Package} (hg : g ∈ p.packages)
    {c : Container} (hc : c ∈ g.containers) {k : Key} (hk : k ∈ c.keys) (language : String) :
    p.names ⟨g.name, c.name, k.id, language⟩ .container = Siblings.names g.containers ∧
      p.names ⟨g.name, c.name, k.id, language⟩ .key = Siblings.names c.keys ∧
      p.names ⟨g.name, c.name, k.id, language⟩ .translation =
        Siblings.names k.translations := by
  have hgwell := h.each g hg
  have hcwell := hgwell.each c hc
  have hcontainers : Siblings.below g.name Package.containers p.packages = g.containers :=
    h.distinct.below_of_mem hg
  have hkeys : Siblings.below c.name Container.keys g.containers = c.keys :=
    hgwell.distinct.below_of_mem hc
  have htranslations : Siblings.below k.id Key.translations c.keys = k.translations :=
    hcwell.distinct.below_of_mem hk
  simp only [names, hcontainers, hkeys, htranslations, and_self]

theorem isSome_textAt (p : Project) (a : Address) :
    (p.textAt a).isSome = (p.translation? a).isSome := by
  rw [textAt_eq_translation?, Option.isSome_map]

/-- **What is listed** are the children that have a text or have one below them. -/
theorem WellFormed.lists_names_iff (h : p.WellFormed) (a : Address) (l : Level) (n : String) :
    Lists n (p.names a l) ↔ p.Has a l n := by
  obtain ⟨M, hM⟩ := h.exists_agrees
  cases l with
  | package =>
    have hfound := hM.isSome_package? h n
    rw [hM.exists_iff fun e => e.package = lowerCased n] at hfound
    rw [names, Siblings.lists_names_iff]
    refine hfound.trans (exists_congr fun b => ?_)
    simp only [isSome_textAt, Address.folded, Address.parent, Address.name, sameFolded_iff,
      true_and]
    exact and_comm
  | container =>
    have hfound := hM.isSome_container? h a.package n
    rw [hM.exists_iff fun e => e.package = lowerCased a.package ∧ e.container = lowerCased n]
      at hfound
    rw [names, Siblings.lists_names_iff, Siblings.find?_below]
    refine hfound.trans (exists_congr fun b => ?_)
    simp only [isSome_textAt, Address.folded, Address.parent, Address.name, sameFolded_iff,
      List.cons.injEq, and_true]
    rw [and_comm, and_assoc]
  | key =>
    have hfound := hM.isSome_key? h a.package a.container n
    rw [hM.exists_iff fun e => e.path = (lowerCased a.package, lowerCased a.container,
      lowerCased n), key?_eq_container?] at hfound
    rw [names, Siblings.lists_names_iff, Siblings.find?_below, Siblings.find?_below]
    refine hfound.trans (exists_congr fun b => ?_)
    simp only [isSome_textAt, Address.folded, Address.path, Address.parent, Address.name,
      sameFolded_iff, List.cons.injEq, and_true, Prod.mk.injEq]
    rw [and_comm, and_assoc, and_assoc, and_assoc]
  | translation =>
    have hfound : Siblings.find? n (Siblings.below a.key Key.translations <|
        Siblings.below a.container Container.keys <|
          Siblings.below a.package Package.containers p.packages) =
        p.translation? { a with language := n } := by
      simp only [Siblings.find?_below, Option.bind_assoc]
      rfl
    rw [names, Siblings.lists_names_iff, hfound, ← isSome_textAt]
    constructor
    · intro hsome
      rw [isSome_textAt] at hsome
      exact ⟨{ a with language := n }, rfl, sameFolded_refl n, hsome⟩
    · rintro ⟨b, hparent, hname, hsome⟩
      have hsame : b.same { a with language := n } = true := by
        simp only [Address.parent, List.cons.injEq, and_true] at hparent
        simp only [Address.same, sameFolded_iff.2 hparent.1, sameFolded_iff.2 hparent.2.1,
          sameFolded_iff.2 hparent.2.2, Bool.true_and]
        exact hname
      rwa [← isSome_textAt, p.textAt_congr hsame] at hsome

theorem WellFormed.distinct_names (h : p.WellFormed) (a : Address) (l : Level) :
    (p.names a l).Pairwise fun m n => sameFolded m n = false := by
  have hcontainers := Siblings.wellFormed_below h (fun _ hg => hg) a.package
  have hkeys := Siblings.wellFormed_below hcontainers (fun _ hc => hc) a.container
  have htranslations := Siblings.wellFormed_below hkeys (fun _ hk => hk) a.key
  cases l with
  | package => exact List.pairwise_map.2 h.distinct
  | container => exact List.pairwise_map.2 hcontainers.distinct
  | key => exact List.pairwise_map.2 hkeys.distinct
  | translation => exact List.pairwise_map.2 htranslations.distinct

/-! ## One call -/

theorem WellFormed.has_set (h : p.WellFormed) {a b : Address} {l : Level}
    (hparent : a.parent l = b.parent l) {text : String} (ht : text ≠ "") :
    (p.set a text).Has b l (a.name l) := by
  have hself : a.same a = true := Address.folded_eq_iff.1 rfl
  refine ⟨a, hparent, sameFolded_refl _, ?_⟩
  rw [translation?_set a text h, if_pos hself, overwrite, String.isEmpty_eq_false_iff.2 ht]
  rfl

theorem WellFormed.has_of_has_erase (h : p.WellFormed) {a b : Address} {l : Level} {n : String}
    (hn : (p.set a "").Has b l n) : p.Has b l n := by
  obtain ⟨c, hparent, hname, hsome⟩ := hn
  refine ⟨c, hparent, hname, ?_⟩
  rw [translation?_set a "" h] at hsome
  split_ifs at hsome with hsame
  · cases hsome
  · exact hsome

end Project

namespace Operation

/-- The address of a call. -/
def address : Operation → Address
  | set a _ | remove a => a

/-- The text that a call sets.  A removal sets the empty one. -/
def text : Operation → String
  | set _ text => text
  | remove _ => ""

theorem onProject_eq_set (o : Operation) (p : Project) :
    o.onProject p = p.set o.address o.text := by
  cases o with
  | set a text => rfl
  | remove a => rfl

end Operation

/-- What a call makes of the names at a level on the way to an address. -/
structure Project.IsRelisted (p : Project) (o : Operation) (a : Address) (l : Level) : Prop where
  /-- Elsewhere it changes nothing. -/
  elsewhere : o.address.parent l ≠ a.parent l → (o.onProject p).names a l = p.names a l
  /-- A child that is there is neither moved nor renamed by a further text, however the
      call spells its name. -/
  again : o.address.parent l = a.parent l → o.text ≠ "" → p.Has a l (o.address.name l) →
    (o.onProject p).names a l = p.names a l
  /-- A child that is not there comes last, and is spelled as in the call. -/
  created : o.address.parent l = a.parent l → o.text ≠ "" → ¬ p.Has a l (o.address.name l) →
    (o.onProject p).names a l = p.names a l ++ [o.address.name l]
  /-- A removal that leaves a text changes nothing. -/
  left : o.address.parent l = a.parent l → o.text = "" →
    (o.onProject p).Has a l (o.address.name l) → (o.onProject p).names a l = p.names a l
  /-- A removal that leaves no text drops the child and nothing else. -/
  dropped : o.address.parent l = a.parent l → o.text = "" →
    ¬ (o.onProject p).Has a l (o.address.name l) →
    (o.onProject p).names a l = (p.names a l).filter fun m => !sameFolded m (o.address.name l)

/-- **One call.** -/
theorem Project.WellFormed.isRelisted {p : Project} (h : p.WellFormed) (o : Operation)
    (a : Address) (l : Level) : p.IsRelisted o a l := by
  have hnames := names_set o.text h (a := o.address) (b := a) l
  have hbefore := h.lists_names_iff a l (o.address.name l)
  have hafter := (h.set o.address o.text).lists_names_iff a l (o.address.name l)
  unfold Follows at hnames
  constructor
  all_goals
    rw [Operation.onProject_eq_set]
    intro hparent
  case elsewhere => rwa [if_neg hparent] at hnames
  all_goals
    rw [if_pos hparent] at hnames
    intro ht
  case again =>
    intro hhas
    exact hnames.eq_of_lists (hbefore.2 hhas) (hafter.2 (h.has_set hparent ht))
  case created =>
    intro hhas
    exact hnames.eq_append (fun hn => hhas (hbefore.1 hn)) (hafter.2 (h.has_set hparent ht))
  case left =>
    intro hhas
    refine hnames.eq_of_lists (hbefore.2 ?_) (hafter.2 hhas)
    rw [ht] at hhas
    exact h.has_of_has_erase hhas
  case dropped =>
    intro hhas
    exact hnames.eq_filter fun hn => hhas (hafter.1 hn)

end MissionText
