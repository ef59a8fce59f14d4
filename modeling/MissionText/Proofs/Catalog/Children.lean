/-
  Laws of children with an index.

  * `IsIndexed`: the index holds the position of every child under its lower-cased
    name, and nothing else.  `IsIndexed.put`, `IsIndexed.remove` are what an
    operation preserves.
  * `get?_eq_find?`: what is found through the index is what is found among the
    children.
  * `items_put`, `items_remove`, `items_removeBelow`: every operation is an edit
    of the children in the sense of `Siblings.edit`.
  * `Sound`: children with an exact index of which none is void.
-/
import MissionText.Catalog.Children
import MissionText.Proofs.Catalog.Siblings

namespace MissionText

/-! ## Siblings by position -/

theorem modify_append_cons {α : Type} (before after : List α) (x : α) (f : α → α) :
    (before ++ x :: after).modify before.length f = before ++ f x :: after := by
  rw [List.modify_eq_take_cons_drop (by simp)]
  simp

theorem eraseIdx_append_cons {α : Type} (before after : List α) (x : α) :
    (before ++ x :: after).eraseIdx before.length = before ++ after := by
  rw [List.eraseIdx_append_of_length_le (Nat.le_refl _)]
  simp

namespace Siblings

variable {α : Type} [Named α]

theorem find?_append_cons {n : String} {before : List α} {x : α} (after : List α)
    (hb : ∀ y ∈ before, sameFolded (Named.name y) n = false)
    (hx : sameFolded (Named.name x) n = true) : find? n (before ++ x :: after) = some x := by
  have hnone : find? n before = none := find?_eq_none_iff.2 hb
  unfold find? at hnone ⊢
  rw [List.find?_append, hnone, Option.none_or]
  exact find?_cons_of_same hx after

/-- Two positions with one name are one position. -/
theorem Distinct.eq_of_getElem? {xs : List α} (h : Distinct xs) {i j : Nat} {x y : α}
    (hx : xs[i]? = some x) (hy : xs[j]? = some y)
    (hname : lowerCased (Named.name x) = lowerCased (Named.name y)) : i = j := by
  have hlt (i j : Nat) (x y : α) (hx : xs[i]? = some x) (hy : xs[j]? = some y)
      (hname : sameFolded (Named.name x) (Named.name y) = true) : ¬ i < j := by
    intro hij
    obtain ⟨hi, rfl⟩ := List.getElem?_eq_some_iff.1 hx
    obtain ⟨hj, rfl⟩ := List.getElem?_eq_some_iff.1 hy
    rw [List.pairwise_iff_getElem.1 h i j hi hj hij] at hname
    cases hname
  have hsame := sameFolded_iff.2 hname
  have h₁ := hlt i j x y hx hy hsame
  have h₂ := hlt j i y x hy hx (sameFolded_comm _ _ ▸ hsame)
  omega

/-- An edit drops a child that it leaves void. -/
theorem edit_append_cons_of_void {n : String} {create : α} {isVoid : α → Bool} {f : α → α}
    {before : List α} {x : α} (after : List α)
    (hb : ∀ y ∈ before, sameFolded (Named.name y) n = false)
    (hx : sameFolded (Named.name x) n = true) (hv : isVoid (f x) = true) :
    edit n create isVoid f (before ++ x :: after) = before ++ after := by
  induction before with
  | nil => simp [edit, alter, hx, hv]
  | cons y ys ih =>
    have hy : ¬ sameFolded (Named.name y) n = true := by simp [hb y List.mem_cons_self]
    have ih := ih fun z hz => hb z (List.mem_cons_of_mem _ hz)
    unfold edit at ih ⊢
    rw [List.cons_append, alter, if_neg hy, ih, List.cons_append]

section View

variable {β : Type} [Named β] {v : α → β}

theorem find?_map (hname : ∀ x, Named.name (v x) = Named.name x) (n : String) (xs : List α) :
    find? n (xs.map v) = (find? n xs).map v := by
  unfold find?
  rw [List.find?_map]
  simp only [Function.comp_def, hname]

/-- An edit commutes with a view of the children that keeps their names. -/
theorem map_edit {n : String} {create : α} {create' : β} {isVoid : α → Bool}
    {isVoid' : β → Bool} {f : α → α} {g : β → β} {xs : List α}
    (hname : ∀ x, Named.name (v x) = Named.name x) (hvoid : ∀ x, isVoid' (v x) = isVoid x)
    (hf : ∀ x ∈ xs, v (f x) = g (v x)) (hcreate : v (f create) = g create') :
    (edit n create isVoid f xs).map v = edit n create' isVoid' g (xs.map v) := by
  have hone (x : α) (y : β) (h : v (f x) = g y) :
      (if isVoid (f x) then none else some (f x)).map v =
        if isVoid' (g y) then none else some (g y) := by
    rw [← h, hvoid]
    split_ifs
    · rfl
    · rfl
  unfold edit
  induction xs with
  | nil =>
    rw [alter, List.map_nil, alter]
    simp only [Option.getD_none, ← hone create create' hcreate]
    rcases (if isVoid (f create) then none else some (f create)) with _ | y
    · rfl
    · rfl
  | cons x xs ih =>
    have ih := ih fun y hy => hf y (List.mem_cons_of_mem _ hy)
    rw [alter, List.map_cons, alter, hname]
    split_ifs
    · simp only [Option.getD_some, List.map_append, ← hone x (v x) (hf x List.mem_cons_self)]
      rcases (if isVoid (f x) then none else some (f x)) with _ | y
      · rfl
      · rfl
    · rw [List.map_cons, ih]

end View

end Siblings

namespace Children

open Siblings (Distinct)

variable {α β : Type} [Named α] {c : Children α} {n : String}

/-! ## The index -/

/-- **The index is exact**: it maps the lower-cased name of every child to its
    position, and nothing else. -/
structure IsIndexed (c : Children α) : Prop where
  mem_index : ∀ key i,
    (key, i) ∈ c.index ↔ ∃ x, c.items[i]? = some x ∧ lowerCased (Named.name x) = key
  nodup : (c.index.map Prod.fst).Nodup

theorem isIndexed_empty : (empty : Children α).IsIndexed :=
  ⟨by simp [empty], by simp [empty]⟩

theorem lookup_eq_some_iff {index : List (String × Nat)} (h : (index.map Prod.fst).Nodup)
    {key : String} {i : Nat} : index.lookup key = some i ↔ (key, i) ∈ index := by
  induction index with
  | nil => simp
  | cons e index ih =>
    obtain ⟨hnotMem, hnodup⟩ := List.nodup_cons.1 h
    obtain ⟨k, j⟩ := e
    by_cases hk : key = k
    · subst hk
      have hold : (key, i) ∉ index := fun hmem => hnotMem (List.mem_map.2 ⟨_, hmem, rfl⟩)
      simp [hold, eq_comm]
    · have hbeq : (key == k) = false := by simpa using hk
      simp [List.lookup_cons, hbeq, ih hnodup, hk]

theorem IsIndexed.position?_eq_some (h : c.IsIndexed) {i : Nat} :
    c.position? n = some i ↔
      ∃ x, c.items[i]? = some x ∧ sameFolded (Named.name x) n = true := by
  unfold position?
  rw [lookup_eq_some_iff h.nodup, h.mem_index]
  simp only [sameFolded_iff]

theorem IsIndexed.position?_append_cons (h : c.IsIndexed) {before after : List α} {x : α}
    (hc : c.items = before ++ x :: after) (hx : sameFolded (Named.name x) n = true) :
    c.position? n = some before.length :=
  h.position?_eq_some.2 ⟨x, by simp [hc], hx⟩

theorem IsIndexed.position?_of_missing (h : c.IsIndexed)
    (hc : ∀ x ∈ c.items, sameFolded (Named.name x) n = false) : c.position? n = none := by
  rw [Option.eq_none_iff_forall_ne_some]
  intro i hi
  obtain ⟨x, hx, hname⟩ := h.position?_eq_some.1 hi
  rw [hc x (List.mem_of_getElem? hx)] at hname
  cases hname

/-- **What is found through the index** is what is found among the children. -/
theorem IsIndexed.get?_eq_find? (h : c.IsIndexed) (n : String) :
    c.get? n = Siblings.find? n c.items := by
  rcases Siblings.split_or_missing n c.items with ⟨before, x, after, hc, hb, hx⟩ | hmissing
  · rw [get?, h.position?_append_cons hc hx, hc, Siblings.find?_append_cons after hb hx]
    simp
  · rw [get?, h.position?_of_missing hmissing, Siblings.find?_eq_none_iff.2 hmissing]
    rfl

/-! ## Operations as edits -/

variable {create : α} {isVoid : α → Bool} {f : α → α}

theorem IsIndexed.items_put (h : c.IsIndexed)
    (hv : isVoid (f ((Siblings.find? n c.items).getD create)) = false) :
    (c.put n create f).items = Siblings.edit n create isVoid f c.items := by
  rcases Siblings.split_or_missing n c.items with ⟨before, x, after, hc, hb, hx⟩ | hmissing
  · rw [hc, Siblings.find?_append_cons after hb hx] at hv
    rw [put, h.position?_append_cons hc hx, hc, Siblings.edit_append_cons after hb hx hv]
    exact modify_append_cons before after x f
  · rw [Siblings.find?_eq_none_iff.2 hmissing, Option.getD_none] at hv
    rw [put, h.position?_of_missing hmissing, Siblings.edit_of_missing hmissing hv]

/-- A removal is an edit that leaves nothing of the child. -/
theorem IsIndexed.items_remove (h : c.IsIndexed) (hv : ∀ x, isVoid (f x) = true) :
    (c.remove n).2.items = Siblings.edit n create isVoid f c.items := by
  rcases Siblings.split_or_missing n c.items with ⟨before, x, after, hc, hb, hx⟩ | hmissing
  · rw [remove, h.position?_append_cons hc hx, hc,
      Siblings.edit_append_cons_of_void after hb hx (hv x)]
    exact eraseIdx_append_cons before after x
  · rw [remove, h.position?_of_missing hmissing,
      Siblings.edit_of_missing_void hmissing (hv create)]

theorem IsIndexed.fst_remove (h : c.IsIndexed) : (c.remove n).1 = Siblings.find? n c.items := by
  rw [← h.get?_eq_find? n, remove, get?]
  rcases c.position? n with _ | i
  · rfl
  · rfl

/-! ## The index after an operation -/

/-- **A change keeps the index exact**, whether it makes the child or finds it. -/
theorem IsIndexed.put (h : c.IsIndexed)
    (hname : lowerCased (Named.name (f ((Siblings.find? n c.items).getD create))) =
      lowerCased n) : (c.put n create f).IsIndexed := by
  rw [← h.get?_eq_find? n, get?] at hname
  unfold Children.put
  rcases hi : c.position? n with _ | i
  · rw [hi] at hname
    have hnew : ∀ x ∈ c.items, lowerCased (Named.name x) ≠ lowerCased n := by
      intro x hx hsame
      obtain ⟨i, hlt, rfl⟩ := List.getElem_of_mem hx
      have hpos := h.position?_eq_some.2
        ⟨_, List.getElem?_eq_getElem hlt, sameFolded_iff.2 hsame⟩
      rw [hi] at hpos
      cases hpos
    refine ⟨fun key j => ?_, ?_⟩
    · rw [List.mem_cons, h.mem_index, Prod.mk.injEq]
      constructor
      · rintro (⟨rfl, rfl⟩ | ⟨x, hx, hkey⟩)
        · exact ⟨f create, by simp, hname⟩
        · obtain ⟨hj, -⟩ := List.getElem?_eq_some_iff.1 hx
          exact ⟨x, by rw [List.getElem?_append_left hj, hx], hkey⟩
      · rintro ⟨x, hx, rfl⟩
        rcases Nat.lt_or_ge j c.items.length with hj | hj
        · rw [List.getElem?_append_left hj] at hx
          exact .inr ⟨x, hx, rfl⟩
        · rw [List.getElem?_append_right hj, List.getElem?_singleton] at hx
          split_ifs at hx with hlast
          obtain rfl := Option.some.inj hx
          exact .inl ⟨hname, by omega⟩
    · refine List.nodup_cons.2 ⟨fun hmem => ?_, h.nodup⟩
      obtain ⟨⟨key, j⟩, he, hkey⟩ := List.mem_map.1 hmem
      obtain ⟨x, hx, hsame⟩ := (h.mem_index key j).1 he
      exact hnew x (List.mem_of_getElem? hx) (hsame.trans hkey)
  · obtain ⟨x, hx, hsame⟩ := h.position?_eq_some.1 hi
    rw [hi, Option.bind_some, hx, Option.getD_some, ← sameFolded_iff.1 hsame] at hname
    refine ⟨fun key j => ?_, h.nodup⟩
    rw [h.mem_index, List.getElem?_modify]
    by_cases hij : i = j
    · subst hij
      simp [hx, hname]
    · simp [hij]

theorem mem_reindexed {index : List (String × Nat)} {i j : Nat} {key : String} :
    (key, j) ∈ reindexed n i index ↔
      key ≠ lowerCased n ∧ ∃ k, (key, k) ∈ index ∧ movedDown i k = j := by
  unfold reindexed
  simp only [List.mem_map, List.mem_filter, bne_iff_ne, Prod.exists, Prod.mk.injEq]
  constructor
  · rintro ⟨key', k, ⟨hmem, hne⟩, rfl, rfl⟩
    exact ⟨hne, k, hmem, rfl⟩
  · rintro ⟨hne, k, hmem, rfl⟩
    exact ⟨key, k, ⟨hmem, hne⟩, rfl, rfl⟩

/-- **A removal keeps the index exact**: the positions after the dropped child move
    down with the children. -/
theorem IsIndexed.remove (h : c.IsIndexed) (hd : Distinct c.items) :
    (c.remove n).2.IsIndexed := by
  unfold Children.remove
  rcases hi : c.position? n with _ | i
  · exact h
  · obtain ⟨dropped, hdropped, hname⟩ := h.position?_eq_some.1 hi
    have hname := sameFolded_iff.1 hname
    refine ⟨fun key j => ?_, ?_⟩
    · rw [mem_reindexed, List.getElem?_eraseIdx]
      constructor
      · rintro ⟨hne, k, hmem, rfl⟩
        obtain ⟨x, hx, rfl⟩ := (h.mem_index key k).1 hmem
        have hk : k ≠ i := by
          rintro rfl
          rw [hdropped] at hx
          exact hne (Option.some.inj hx ▸ hname)
        refine ⟨x, ?_, rfl⟩
        unfold movedDown
        rcases Nat.lt_or_gt_of_ne hk with hlt | hgt
        · have hkeep : ¬ i < k := by omega
          rw [if_neg hkeep, if_pos hlt, hx]
        · have hdown : ¬ k - 1 < i := by omega
          rw [if_pos hgt, if_neg hdown, Nat.sub_add_cancel (by omega), hx]
      · rintro ⟨x, hx, rfl⟩
        -- The child was at another position than the dropped one, so it has another name.
        have hother {k : Nat} (hk : k ≠ i) (hx : c.items[k]? = some x) :
            lowerCased (Named.name x) ≠ lowerCased n ∧
              (lowerCased (Named.name x), k) ∈ c.index :=
          ⟨fun hsame => hk (hd.eq_of_getElem? hx hdropped (hsame.trans hname.symm)),
            (h.mem_index _ k).2 ⟨x, hx, rfl⟩⟩
        unfold movedDown
        by_cases hj : j < i
        · rw [if_pos hj] at hx
          obtain ⟨hne, hmem⟩ := hother (by omega) hx
          exact ⟨hne, j, hmem, if_neg (by omega)⟩
        · rw [if_neg hj] at hx
          obtain ⟨hne, hmem⟩ := hother (by omega) hx
          exact ⟨hne, j + 1, hmem, if_pos (by omega)⟩
    · have hkeys : (reindexed n i c.index).map Prod.fst =
          (c.index.filter fun e => e.1 != lowerCased n).map Prod.fst := by
        simp [reindexed, Function.comp_def]
      rw [hkeys]
      exact h.nodup.sublist (List.filter_sublist.map Prod.fst)

/-! ## Removal below a child -/

variable {r : α → Option β × α}

theorem IsIndexed.fst_removeBelow (h : c.IsIndexed) :
    (c.removeBelow n isVoid r).1 = (Siblings.find? n c.items).bind fun x => (r x).1 := by
  rw [removeBelow, h.get?_eq_find?]
  rcases Siblings.find? n c.items with _ | x
  · rfl
  · rfl

/-- **A removal below a child** is an edit of the child. -/
theorem IsIndexed.items_removeBelow (h : c.IsIndexed) (hv : isVoid (r create).2 = true) :
    (c.removeBelow n isVoid r).2.items =
      Siblings.edit n create isVoid (fun x => (r x).2) c.items := by
  rw [removeBelow, h.get?_eq_find?]
  rcases Siblings.split_or_missing n c.items with ⟨before, x, after, hc, hb, hx⟩ | hmissing
  · rw [hc, Siblings.find?_append_cons after hb hx]
    dsimp only
    by_cases hvoid : isVoid (r x).2 = true
    · rw [if_pos hvoid, Siblings.edit_append_cons_of_void after hb hx hvoid, Children.remove,
        h.position?_append_cons hc hx, hc]
      exact eraseIdx_append_cons before after x
    · rw [if_neg hvoid, Siblings.edit_append_cons after hb hx (Bool.eq_false_iff.2 hvoid),
        Children.put, h.position?_append_cons hc hx, hc]
      exact modify_append_cons before after x _
  · rw [Siblings.find?_eq_none_iff.2 hmissing, Siblings.edit_of_missing_void hmissing hv]

theorem IsIndexed.removeBelow (h : c.IsIndexed) (hd : Distinct c.items)
    (hr : ∀ x, Named.name (r x).2 = Named.name x) : (c.removeBelow n isVoid r).2.IsIndexed := by
  rw [Children.removeBelow, h.get?_eq_find?]
  rcases hx : Siblings.find? n c.items with _ | x
  · exact h
  · dsimp only
    split_ifs
    · exact h.remove hd
    · refine h.put ?_
      rw [hr]
      exact sameFolded_iff.1 (Siblings.name_of_find? hx)

theorem IsIndexed.removeBelow_of_unchanged (h : c.IsIndexed)
    (hr : ∀ x, Siblings.find? n c.items = some x → r x = (none, x) ∧ isVoid x = false) :
    c.removeBelow n isVoid r = (none, c) := by
  rw [Children.removeBelow, h.get?_eq_find?]
  rcases Siblings.split_or_missing n c.items with ⟨before, x, after, hc, hb, hx⟩ | hmissing
  · have hfound : Siblings.find? n c.items = some x := hc ▸ Siblings.find?_append_cons after hb hx
    obtain ⟨hrx, hv⟩ := hr x hfound
    have hsame := modify_append_cons before after x fun _ => x
    rw [← hc] at hsame
    simp only [hfound, hrx, hv, Bool.false_eq_true, if_false, Children.put,
      h.position?_append_cons hc hx, hsame]
  · rw [Siblings.find?_eq_none_iff.2 hmissing]

/-! ## Sound children -/

/-- Children with an exact index, with distinct names, of which none is void. -/
structure Sound (P : α → Prop) (isVoid : α → Bool) (c : Children α) : Prop where
  indexed : c.IsIndexed
  wellFormed : Siblings.WellFormed P isVoid c.items

variable {P : α → Prop}

theorem sound_empty (P : α → Prop) (isVoid : α → Bool) : (empty : Children α).Sound P isVoid :=
  ⟨isIndexed_empty, Siblings.WellFormed.nil P isVoid⟩

theorem Sound.each_getD (h : c.Sound P isVoid) (n : String) (hP : P create) :
    P ((Siblings.find? n c.items).getD create) := by
  rcases hx : Siblings.find? n c.items with _ | x
  · exact hP
  · exact h.wellFormed.each x (Siblings.mem_of_find? hx)

/-- A change of a sound child is an edit. -/
theorem Sound.items_put (h : c.Sound P isVoid) (hv : ∀ x, P x → isVoid (f x) = false)
    (hP : P create) : (c.put n create f).items = Siblings.edit n create isVoid f c.items :=
  h.indexed.items_put (hv _ (h.each_getD n hP))

theorem Sound.put (h : c.Sound P isVoid) (hn : Named.name create = n)
    (hf : ∀ x, Named.name (f x) = Named.name x) (hv : ∀ x, P x → isVoid (f x) = false)
    (hP : P create) (hPf : ∀ x, P x → P (f x)) : (c.put n create f).Sound P isVoid := by
  refine ⟨h.indexed.put ?_, ?_⟩
  · rw [hf]
    rcases hx : Siblings.find? n c.items with _ | x
    · rw [Option.getD_none, hn]
    · exact sameFolded_iff.1 (Siblings.name_of_find? hx)
  · rw [h.items_put hv hP]
    exact h.wellFormed.edit hn hf hP hPf

theorem Sound.remove (h : c.Sound P isVoid) : (c.remove n).2.Sound P isVoid := by
  refine ⟨h.indexed.remove h.wellFormed.distinct, ?_⟩
  have hsublist : (c.remove n).2.items.Sublist c.items := by
    unfold Children.remove
    rcases c.position? n with _ | i
    · exact List.Sublist.refl _
    · exact List.eraseIdx_sublist _ _
  exact ⟨h.wellFormed.distinct.sublist hsublist,
    fun x hx => h.wellFormed.each x (hsublist.subset hx),
    fun x hx => h.wellFormed.full x (hsublist.subset hx)⟩

theorem Sound.removeBelow (h : c.Sound P isVoid) (hn : Named.name create = n)
    (hr : ∀ x, Named.name (r x).2 = Named.name x) (hv : isVoid (r create).2 = true)
    (hP : P create) (hPr : ∀ x, P x → P (r x).2) : (c.removeBelow n isVoid r).2.Sound P isVoid := by
  refine ⟨h.indexed.removeBelow h.wellFormed.distinct hr, ?_⟩
  rw [h.indexed.items_removeBelow hv]
  exact h.wellFormed.edit hn hr hP hPr

theorem Sound.get?_eq_some (h : c.Sound P isVoid) {x : α} (hx : c.get? n = some x) : P x := by
  rw [h.indexed.get?_eq_find?] at hx
  exact h.wellFormed.each x (Siblings.mem_of_find? hx)

/-- What is removed below a child is what the child has to give. -/
theorem Sound.fst_removeBelow (h : c.Sound P isVoid) {g : α → Option β}
    (hr : ∀ x, P x → (r x).1 = g x) : (c.removeBelow n isVoid r).1 = (c.get? n).bind g := by
  rw [h.indexed.fst_removeBelow, h.indexed.get?_eq_find?]
  exact Option.bind_congr fun x hx => hr x (h.wellFormed.each x (Siblings.mem_of_find? hx))

theorem Sound.removeBelow_of_unchanged (h : c.Sound P isVoid)
    (hr : ∀ x, c.get? n = some x → P x → r x = (none, x)) :
    c.removeBelow n isVoid r = (none, c) := by
  refine h.indexed.removeBelow_of_unchanged fun x hx => ?_
  have hmem := Siblings.mem_of_find? hx
  rw [← h.indexed.get?_eq_find?] at hx
  exact ⟨hr x hx (h.wellFormed.each x hmem), h.wellFormed.full x hmem⟩

/-! ## Views -/

section View

variable {γ : Type} [Named γ] {v : α → γ} {isVoid' : γ → Bool} {g : γ → γ} {create' : γ}

/-- A change of a child, seen through a view, is an edit of what is seen. -/
theorem Sound.map_items_put (h : c.Sound P isVoid)
    (hname : ∀ x, Named.name (v x) = Named.name x) (hvoid : ∀ x, isVoid' (v x) = isVoid x)
    (hv : ∀ x, P x → isVoid (f x) = false) (hP : P create)
    (hf : ∀ x, P x → v (f x) = g (v x)) (hcreate : v create = create') :
    (c.put n create f).items.map v = Siblings.edit n create' isVoid' g (c.items.map v) := by
  rw [h.items_put hv hP]
  exact Siblings.map_edit hname hvoid (fun x hx => hf x (h.wellFormed.each x hx))
    ((hf create hP).trans (congrArg g hcreate))

/-- A removal below a child, seen through a view, is an edit of what is seen. -/
theorem Sound.map_items_removeBelow (h : c.Sound P isVoid)
    (hname : ∀ x, Named.name (v x) = Named.name x) (hvoid : ∀ x, isVoid' (v x) = isVoid x)
    (hv : isVoid (r create).2 = true) (hP : P create)
    (hr : ∀ x, P x → v (r x).2 = g (v x)) (hcreate : v create = create') :
    (c.removeBelow n isVoid r).2.items.map v =
      Siblings.edit n create' isVoid' g (c.items.map v) := by
  rw [h.indexed.items_removeBelow hv]
  exact Siblings.map_edit hname hvoid (fun x hx => hr x (h.wellFormed.each x hx))
    ((hr create hP).trans (congrArg g hcreate))

/-- What is found through the index, seen through a view, is what is found among
    what is seen. -/
theorem IsIndexed.find?_map_items (h : c.IsIndexed)
    (hname : ∀ x, Named.name (v x) = Named.name x) (n : String) :
    Siblings.find? n (c.items.map v) = (c.get? n).map v := by
  rw [Siblings.find?_map hname, h.get?_eq_find?]

end View

end Children

end MissionText
