/-
  Laws of named children.

  * `find?_edit`, `WellFormed.find?_edit_bind`: what is found after an edit,
    under every name, as a child and below it.
  * `WellFormed`: names are distinct and no child is void; `WellFormed.edit`
    is what one edit preserves.
  * `foldl_edit_same`: edits of one child are one edit.
  * `foldl_edit_new`, `foldl_edit_old`: edits of one child after the other, in
    order, make a list of new children, or change a list in place.
-/
import MissionText.Catalog.Siblings
import MissionText.Proofs.Text.Folding

namespace MissionText.Siblings

variable {α : Type} [Named α]

/-! ## Finding -/

theorem find?_cons_of_same {x : α} {n : String} (h : sameFolded (Named.name x) n = true)
    (xs : List α) : find? n (x :: xs) = some x :=
  List.find?_cons_of_pos h

theorem find?_cons_of_not_same {x : α} {n : String} (h : sameFolded (Named.name x) n = false)
    (xs : List α) : find? n (x :: xs) = find? n xs :=
  List.find?_cons_of_neg (by simp [h])

theorem find?_eq_none_iff {n : String} {xs : List α} :
    find? n xs = none ↔ ∀ x ∈ xs, sameFolded (Named.name x) n = false := by
  simp [find?, List.find?_eq_none]

theorem name_of_find? {n : String} {xs : List α} {x : α} (h : find? n xs = some x) :
    sameFolded (Named.name x) n = true := by
  simpa using List.find?_some h

theorem mem_of_find? {n : String} {xs : List α} {x : α} (h : find? n xs = some x) : x ∈ xs :=
  List.mem_of_find?_eq_some h

theorem find?_congr {n m : String} (h : sameFolded n m = true) (xs : List α) :
    find? n xs = find? m xs := by
  unfold find?
  congr 1
  funext x
  exact sameFolded_right h _

theorem Distinct.find?_of_mem {xs : List α} (h : Distinct xs) {x : α} (hx : x ∈ xs) :
    find? (Named.name x) xs = some x := by
  induction xs with
  | nil => cases hx
  | cons y ys ih =>
    obtain ⟨hy, hys⟩ := List.pairwise_cons.1 h
    rcases List.mem_cons.1 hx with rfl | hx
    · exact find?_cons_of_same (sameFolded_refl _) ys
    · rw [find?_cons_of_not_same (hy x hx), ih hys hx]

/-- Under the name of the first child there is no other one. -/
theorem Distinct.find?_tail {x : α} {xs : List α} (h : Distinct (x :: xs)) {n : String}
    (hx : sameFolded (Named.name x) n = true) : find? n xs = none := by
  rw [find?_eq_none_iff]
  intro y hy
  rw [← sameFolded_right hx, sameFolded_comm]
  exact List.rel_of_pairwise_cons h hy

/-- Of one name there is one child at the most. -/
theorem Distinct.filter_eq_find? {xs : List α} (h : Distinct xs) (n : String) :
    (xs.filter fun x => sameFolded (Named.name x) n) = (find? n xs).toList := by
  induction xs with
  | nil => rfl
  | cons x xs ih =>
    by_cases hx : sameFolded (Named.name x) n = true
    · have hrest := ih (List.Pairwise.of_cons h)
      rw [h.find?_tail hx] at hrest
      rw [List.filter_cons, if_pos hx, hrest, find?_cons_of_same hx]
      rfl
    · rw [List.filter_cons, if_neg hx, ih (List.Pairwise.of_cons h),
        find?_cons_of_not_same (Bool.eq_false_iff.2 hx)]

/-! ## Alteration -/

/-- The new child has the name under which it is put. -/
def Fits (n : String) (f : Option α → Option α) (xs : List α) : Prop :=
  ∀ y, f (find? n xs) = some y → sameFolded (Named.name y) n = true

theorem Fits.tail {n : String} {f : Option α → Option α} {x : α} {xs : List α}
    (h : Fits n f (x :: xs)) (hx : sameFolded (Named.name x) n = false) : Fits n f xs := by
  intro y hy
  refine h y ?_
  rwa [find?_cons_of_not_same hx]

theorem find?_alter {n : String} {f : Option α → Option α} {xs : List α} (h : Distinct xs)
    (hf : Fits n f xs) (m : String) :
    find? m (alter n f xs) = if sameFolded n m then f (find? n xs) else find? m xs := by
  induction xs with
  | nil =>
    rw [alter]
    rcases hy : f none with _ | y
    · simp [find?, hy]
    · have hname := sameFolded_left (hf y hy) m
      simp [find?, hy, hname, List.find?_singleton]
  | cons x xs ih =>
    by_cases hx : sameFolded (Named.name x) n = true
    · have htail : find? n xs = none := h.find?_tail hx
      have hxm := sameFolded_left hx m
      rw [alter, if_pos hx]
      have hn : find? n (x :: xs) = some x := find?_cons_of_same hx xs
      rcases hy : f (some x) with _ | y
      · rw [Option.toList_none, List.nil_append, hn, hy]
        split_ifs with hm
        · rw [← find?_congr hm, htail]
        · rw [find?_cons_of_not_same (by simpa [hxm] using hm)]
      · have hym := sameFolded_left (hf y (hn ▸ hy)) m
        rw [Option.toList_some, List.singleton_append, hn, hy]
        split_ifs with hm
        · exact find?_cons_of_same (hym.trans hm) xs
        · rw [find?_cons_of_not_same (by simpa [hym] using hm),
            find?_cons_of_not_same (by simpa [hxm] using hm)]
    · have hx : sameFolded (Named.name x) n = false := by simpa using hx
      rw [alter, if_neg (by simp [hx]), find?_cons_of_not_same hx]
      by_cases hm : sameFolded (Named.name x) m = true
      · have hnm : sameFolded n m = false := by
          rw [← sameFolded_right hm, sameFolded_comm, hx]
        rw [find?_cons_of_same hm, find?_cons_of_same hm, hnm]
        rfl
      · have hm : sameFolded (Named.name x) m = false := by simpa using hm
        rw [find?_cons_of_not_same hm, find?_cons_of_not_same hm,
          ih (List.pairwise_cons.1 h).2 (hf.tail hx)]

theorem mem_alter {n : String} {f : Option α → Option α} {xs : List α} {y : α}
    (h : y ∈ alter n f xs) : y ∈ xs ∨ f (find? n xs) = some y := by
  induction xs with
  | nil =>
    rw [alter, Option.mem_toList] at h
    exact .inr h
  | cons x xs ih =>
    rw [alter] at h
    split_ifs at h with hx
    · rcases List.mem_append.1 h with h | h
      · right
        rw [find?_cons_of_same hx]
        exact Option.mem_toList.1 h
      · exact .inl (List.mem_cons_of_mem _ h)
    · rw [find?_cons_of_not_same (by simpa using hx)]
      rcases List.mem_cons.1 h with rfl | h
      · exact .inl List.mem_cons_self
      · exact (ih h).imp_left (List.mem_cons_of_mem _)

theorem Distinct.alter {n : String} {f : Option α → Option α} {xs : List α} (h : Distinct xs)
    (hf : Fits n f xs) : Distinct (alter n f xs) := by
  induction xs with
  | nil =>
    rw [Siblings.alter]
    cases f none <;> simp [Distinct]
  | cons x xs ih =>
    obtain ⟨hx, hxs⟩ := List.pairwise_cons.1 h
    rw [Siblings.alter]
    split_ifs with hn
    · have hn' := find?_cons_of_same hn xs
      rcases hy : f (some x) with _ | y
      · exact hxs
      · refine List.pairwise_cons.2 ⟨fun z hz => ?_, hxs⟩
        rw [sameFolded_left (hf y (hn' ▸ hy)), ← sameFolded_left hn]
        exact hx z hz
    · have hn : sameFolded (Named.name x) n = false := by simpa using hn
      have hfits : Fits n f xs := hf.tail hn
      refine List.pairwise_cons.2 ⟨fun z hz => ?_, ih hxs hfits⟩
      rcases mem_alter hz with hz | hz
      · exact hx z hz
      · rw [sameFolded_right (hfits z hz), hn]

/-! ## Edits -/

section Edit

variable {n : String} {create : α} {isVoid : α → Bool} {f : α → α}

/-- The child of a name after an edit. -/
def edited (n : String) (create : α) (isVoid : α → Bool) (f : α → α) (xs : List α) : Option α :=
  let y := f ((find? n xs).getD create)
  if isVoid y then none else some y

theorem fits_edit (hc : Named.name create = n) (hf : ∀ x, Named.name (f x) = Named.name x)
    (xs : List α) :
    Fits n (fun x => let y := f (x.getD create); if isVoid y then none else some y) xs := by
  intro y hy
  dsimp only at hy
  split at hy
  · cases hy
  · rw [← Option.some.inj hy, hf]
    rcases hx : find? n xs with _ | x
    · rw [Option.getD_none, hc, sameFolded_refl]
    · exact name_of_find? hx

/-- **What is found after an edit**, under every name. -/
theorem find?_edit (isVoid : α → Bool) {xs : List α} (h : Distinct xs) (hc : Named.name create = n)
    (hf : ∀ x, Named.name (f x) = Named.name x) (m : String) :
    find? m (edit n create isVoid f xs) =
      if sameFolded n m then edited n create isVoid f xs else find? m xs :=
  find?_alter h (fits_edit hc hf xs) m

/-- Edited children, with what the model asks of them. -/
structure WellFormed (P : α → Prop) (isVoid : α → Bool) (xs : List α) : Prop where
  distinct : Distinct xs
  each : ∀ x ∈ xs, P x
  full : ∀ x ∈ xs, isVoid x = false

theorem WellFormed.nil (P : α → Prop) (isVoid : α → Bool) : WellFormed P isVoid ([] : List α) :=
  ⟨List.Pairwise.nil, by simp, by simp⟩

theorem forall_edit {P : α → Prop} {xs : List α} (h : ∀ x ∈ xs, P x) (hc : P create)
    (hf : ∀ x, P x → P (f x)) : ∀ y ∈ edit n create isVoid f xs, P y := by
  intro y hy
  rcases mem_alter hy with hy | hy
  · exact h y hy
  · dsimp only at hy
    split at hy
    · cases hy
    · rw [← Option.some.inj hy]
      refine hf _ ?_
      rcases hx : find? n xs with _ | x
      · exact hc
      · exact h x (mem_of_find? hx)

theorem isVoid_of_mem_edit {xs : List α} (h : ∀ x ∈ xs, isVoid x = false) :
    ∀ y ∈ edit n create isVoid f xs, isVoid y = false := by
  intro y hy
  rcases mem_alter hy with hy | hy
  · exact h y hy
  · dsimp only at hy
    split at hy
    · cases hy
    · next hv =>
      rw [← Option.some.inj hy]
      simpa using hv

/-- **An edit keeps children well-formed.** -/
theorem WellFormed.edit {P : α → Prop} {xs : List α} (h : WellFormed P isVoid xs)
    (hc : Named.name create = n) (hf : ∀ x, Named.name (f x) = Named.name x) (hP : P create)
    (hPf : ∀ x, P x → P (f x)) : WellFormed P isVoid (edit n create isVoid f xs) :=
  ⟨h.distinct.alter (fits_edit hc hf xs), forall_edit h.each hP hPf, isVoid_of_mem_edit h.full⟩

/-- What an edit changes is well-formed, whether it is found or made. -/
theorem WellFormed.getD_find? {P : α → Prop} {xs : List α} (h : WellFormed P isVoid xs)
    (hP : P create) (n : String) : P ((find? n xs).getD create) := by
  rcases hx : find? n xs with _ | x
  · exact hP
  · exact h.each x (mem_of_find? hx)

/-- What is found below the child that an edit changes is what was found before. -/
theorem bind_find?_of_same {γ : Type} {g : α → Option γ} (hvc : isVoid create = true)
    (hg : ∀ x, isVoid x = true → g x = none) {m : String} (hm : sameFolded n m = true)
    (xs : List α) : g ((find? n xs).getD create) = (find? m xs).bind g := by
  rw [find?_congr hm]
  cases find? m xs with
  | none => exact hg create hvc
  | some x => rfl

/-- **What is found below a child after an edit**: if the edit changes what is
    found there (`here`), it makes `v` of the child. -/
theorem WellFormed.bind_find?_edit {P : α → Prop} {γ : Type} {g : α → Option γ} {here : Bool}
    {v : α → Option γ} {xs : List α} (h : WellFormed P isVoid xs) (hc : Named.name create = n)
    (hf : ∀ x, Named.name (f x) = Named.name x) (hP : P create) (hvc : isVoid create = true)
    (hg : ∀ x, isVoid x = true → g x = none)
    (hgf : ∀ x, P x → g (f x) = if here then v x else g x) (m : String) :
    (find? m (Siblings.edit n create isVoid f xs)).bind g =
      if sameFolded n m && here then v ((find? n xs).getD create) else (find? m xs).bind g := by
  rw [find?_edit isVoid h.distinct hc hf]
  by_cases hm : sameFolded n m = true
  · have hnew : (edited n create isVoid f xs).bind g = g (f ((find? n xs).getD create)) := by
      unfold edited
      dsimp only
      split
      · next hv => rw [hg _ hv, Option.bind_none]
      · rw [Option.bind_some]
    rw [if_pos hm, hnew, hgf _ (h.getD_find? hP n), bind_find?_of_same hvc hg hm, hm,
      Bool.true_and]
  · rw [if_neg hm, if_neg (by simp [hm])]

/-- **What is found below a child after an edit.**  The edit makes `u` of what is
    found if `here`, and changes nothing else. -/
theorem WellFormed.find?_edit_bind {P : α → Prop} {γ : Type} {g : α → Option γ} {here : Bool}
    {u : Option γ → Option γ} {xs : List α} (h : WellFormed P isVoid xs)
    (hc : Named.name create = n) (hf : ∀ x, Named.name (f x) = Named.name x) (hP : P create)
    (hvc : isVoid create = true) (hg : ∀ x, isVoid x = true → g x = none)
    (hgf : ∀ x, P x → g (f x) = if here then u (g x) else g x) (m : String) :
    (find? m (Siblings.edit n create isVoid f xs)).bind g =
      if sameFolded n m && here then u ((find? m xs).bind g) else (find? m xs).bind g := by
  rw [h.bind_find?_edit (v := fun x => u (g x)) hc hf hP hvc hg hgf m]
  by_cases hm : sameFolded n m = true
  · rw [bind_find?_of_same hvc hg hm]
  · rw [Bool.eq_false_iff.2 hm, Bool.false_and]
    rfl

/-- What is found after an edit that drops nothing. -/
theorem find?_edit_of_kept {xs : List α} (h : Distinct xs) (hc : Named.name create = n)
    (hf : ∀ x, Named.name (f x) = Named.name x) (hv : ∀ x, isVoid (f x) = false) (m : String) :
    find? m (edit n create isVoid f xs) =
      if sameFolded n m then some (f ((find? n xs).getD create)) else find? m xs := by
  rw [find?_edit isVoid h hc hf, edited, hv]
  rfl

theorem alter_congr {n m : String} {F G : Option α → Option α} {y : α} {xs : List α}
    (h : find? n xs = some y) (hm : sameFolded m n = true) (hF : F (some y) = G (some y)) :
    alter m F xs = alter n G xs := by
  induction xs with
  | nil => cases h
  | cons x xs ih =>
    have hx := sameFolded_right hm (Named.name x)
    rw [alter, alter, hx]
    split_ifs with hn
    · rw [find?_cons_of_same hn] at h
      rw [Option.some.inj h, hF]
    · rw [find?_cons_of_not_same (by simpa using hn)] at h
      rw [ih h]

theorem alter_congr_of_missing {n : String} {F G : Option α → Option α} {xs : List α}
    (h : find? n xs = none) (hF : F none = G none) : alter n F xs = alter n G xs := by
  induction xs with
  | nil => rw [alter, alter, hF]
  | cons x xs ih =>
    obtain ⟨hx, hxs⟩ := List.forall_mem_cons.1 (find?_eq_none_iff.1 h)
    rw [alter, alter, hx, ih (find?_eq_none_iff.2 hxs)]
    rfl

/-- **An edit under the name that the child has** is the same edit; of the two
    functions only the values at the child count. -/
theorem edit_of_eq (create : String → α) {g : α → α} {xs : List α} {y : α}
    (hc : ∀ n, Named.name (create n) = n) (hy : (find? n xs).getD (create n) = y)
    (hfg : f y = g y) :
    edit (Named.name y) (create (Named.name y)) isVoid f xs = edit n (create n) isVoid g xs := by
  rcases hfind : find? n xs with _ | x
  · rw [hfind, Option.getD_none] at hy
    subst hy
    rw [hc]
    refine alter_congr_of_missing hfind ?_
    simp only [Option.getD_none, hfg]
  · rw [hfind, Option.getD_some] at hy
    subst hy
    refine alter_congr hfind (name_of_find? hfind) ?_
    simp only [Option.getD_some, hfg]

theorem edit_ne_nil (hv : ∀ x, isVoid (f x) = false) (xs : List α) :
    edit n create isVoid f xs ≠ [] := by
  induction xs with
  | nil => simp [edit, alter, hv]
  | cons x xs ih =>
    unfold edit at ih ⊢
    rw [alter]
    split_ifs <;> simp [hv]

theorem edit_append_cons {before : List α} {x : α} (after : List α)
    (hb : ∀ y ∈ before, sameFolded (Named.name y) n = false)
    (hx : sameFolded (Named.name x) n = true) (hv : isVoid (f x) = false) :
    edit n create isVoid f (before ++ x :: after) = before ++ f x :: after := by
  induction before with
  | nil => simp [edit, alter, hx, hv]
  | cons y ys ih =>
    have hy : ¬ sameFolded (Named.name y) n = true := by simp [hb y List.mem_cons_self]
    have ih := ih fun z hz => hb z (List.mem_cons_of_mem _ hz)
    unfold edit at ih ⊢
    rw [List.cons_append, alter, if_neg hy, ih, List.cons_append]

theorem edit_of_missing {xs : List α}
    (h : ∀ y ∈ xs, sameFolded (Named.name y) n = false) (hv : isVoid (f create) = false) :
    edit n create isVoid f xs = xs ++ [f create] := by
  induction xs with
  | nil => simp [edit, alter, hv]
  | cons y ys ih =>
    have hy : ¬ sameFolded (Named.name y) n = true := by simp [h y List.mem_cons_self]
    have ih := ih fun z hz => h z (List.mem_cons_of_mem _ hz)
    unfold edit at ih ⊢
    rw [alter, if_neg hy, ih, List.cons_append]

theorem edit_of_missing_void {xs : List α}
    (h : ∀ y ∈ xs, sameFolded (Named.name y) n = false) (hv : isVoid (f create) = true) :
    edit n create isVoid f xs = xs := by
  induction xs with
  | nil => simp [edit, alter, hv]
  | cons y ys ih =>
    have hy : ¬ sameFolded (Named.name y) n = true := by simp [h y List.mem_cons_self]
    have ih := ih fun z hz => h z (List.mem_cons_of_mem _ hz)
    unfold edit at ih ⊢
    rw [alter, if_neg hy, ih]

theorem mem_edit_of_not_same {xs : List α} {y : α} (hy : y ∈ xs)
    (hn : sameFolded (Named.name y) n = false) : y ∈ edit n create isVoid f xs := by
  induction xs with
  | nil => cases hy
  | cons x xs ih =>
    unfold edit at ih ⊢
    rw [alter]
    split_ifs with hx
    · rcases List.mem_cons.1 hy with rfl | hy
      · rw [hn] at hx
        cases hx
      · exact List.mem_append_right _ hy
    · rcases List.mem_cons.1 hy with rfl | hy
      · exact List.mem_cons_self
      · exact List.mem_cons_of_mem _ (ih hy)

theorem split_or_missing (n : String) (xs : List α) :
    (∃ before x after, xs = before ++ x :: after ∧
        (∀ y ∈ before, sameFolded (Named.name y) n = false) ∧
        sameFolded (Named.name x) n = true) ∨
      ∀ y ∈ xs, sameFolded (Named.name y) n = false := by
  rcases hx : find? n xs with _ | x
  · exact .inr (find?_eq_none_iff.1 hx)
  · obtain ⟨hn, before, after, rfl, hb⟩ := List.find?_eq_some_iff_append.1 hx
    exact .inl ⟨before, x, after, rfl, fun y hy => by simpa using hb y hy, hn⟩

theorem exists_mem_edit (hc : Named.name create = n) (hf : ∀ x, Named.name (f x) = Named.name x)
    (hv : ∀ x, isVoid (f x) = false) (xs : List α) :
    ∃ y ∈ edit n create isVoid f xs, sameFolded (Named.name y) n = true := by
  rcases split_or_missing n xs with ⟨before, x, after, rfl, hb, hx⟩ | h
  · refine ⟨f x, ?_, by rwa [hf]⟩
    rw [edit_append_cons after hb hx (hv x)]
    exact List.mem_append_right _ List.mem_cons_self
  · refine ⟨f create, ?_, by rw [hf, hc, sameFolded_refl]⟩
    rw [edit_of_missing h (hv create)]
    exact List.mem_append_right _ List.mem_cons_self

/-- Two edits of one child are one edit, unless the first drops the child. -/
theorem edit_edit (isVoid : α → Bool) {g : α → α} (hc : Named.name create = n)
    (hf : ∀ x, Named.name (f x) = Named.name x) (hvf : ∀ x, isVoid (f x) = false)
    (hvg : ∀ x, isVoid (g (f x)) = false) (xs : List α) :
    edit n create isVoid g (edit n create isVoid f xs) = edit n create isVoid (g ∘ f) xs := by
  rcases split_or_missing n xs with ⟨before, x, after, rfl, hb, hx⟩ | h
  · rw [edit_append_cons after hb hx (hvf x), edit_append_cons after hb hx (hvg x),
      edit_append_cons after hb (by rwa [hf]) (hvg x)]
    rfl
  · have hnew : sameFolded (Named.name (f create)) n = true := by rw [hf, hc, sameFolded_refl]
    have hboth : edit n create isVoid (g ∘ f) xs = xs ++ [g (f create)] :=
      edit_of_missing h (hvg create)
    rw [edit_of_missing h (hvf create), edit_append_cons [] h hnew (hvg create), hboth]

end Edit

/-! ## Many edits -/

section Fold

variable {β : Type}

/-- **Edits of one child are one edit**, if none of them drops it. -/
theorem foldl_edit_same {n : String} {new : α} {isVoid : α → Bool} {f : β → α → α}
    (hc : Named.name new = n) (hf : ∀ b x, Named.name (f b x) = Named.name x) {bs : List β}
    (hv : ∀ b ∈ bs, ∀ x, isVoid (f b x) = false) (hbs : bs ≠ []) (xs : List α) :
    bs.foldl (fun xs b => edit n new isVoid (f b) xs) xs =
      edit n new isVoid (fun x => bs.foldl (fun x b => f b x) x) xs := by
  -- The edits before the last one, as one edit, are the `g` of the induction.
  have hkeep : ∀ (bs : List β) (g : α → α), (∀ x, Named.name (g x) = Named.name x) →
      (∀ x, isVoid (g x) = false) → (∀ b ∈ bs, ∀ x, isVoid (f b x) = false) → ∀ xs : List α,
      bs.foldl (fun xs b => edit n new isVoid (f b) xs) (edit n new isVoid g xs) =
        edit n new isVoid (fun x => bs.foldl (fun x b => f b x) (g x)) xs := by
    intro bs
    induction bs with
    | nil => intros; rfl
    | cons b bs ih =>
      intro g hg hvg hv xs
      have hvb : ∀ x, isVoid (f b x) = false := hv b List.mem_cons_self
      rw [List.foldl_cons, edit_edit isVoid hc hg hvg (fun x => hvb (g x)),
        ih (f b ∘ g) (fun x => by rw [Function.comp_apply, hf, hg]) (fun x => hvb (g x))
          fun c hc => hv c (List.mem_cons_of_mem _ hc)]
      rfl
  obtain ⟨b, bs, rfl⟩ := List.exists_cons_of_ne_nil hbs
  exact hkeep bs (f b) (hf b) (hv b List.mem_cons_self)
    (fun c hc => hv c (List.mem_cons_of_mem _ hc)) xs

/-- The names of a list are distinct. -/
def DistinctNames (name : β → String) (bs : List β) : Prop :=
  bs.Pairwise fun a b => sameFolded (name a) (name b) = false

variable {name : β → String} (create : β → α) (isVoid : α → Bool) (f : β → α → α)

/-- **Edits of missing children, in order, make them in this order.** -/
theorem foldl_edit_new (hc : ∀ b, Named.name (create b) = name b)
    (hf : ∀ b x, Named.name (f b x) = Named.name x) {bs : List β}
    (hv : ∀ b ∈ bs, isVoid (f b (create b)) = false) (hd : DistinctNames name bs) (xs : List α)
    (hxs : ∀ x ∈ xs, ∀ b ∈ bs, sameFolded (Named.name x) (name b) = false) :
    bs.foldl (fun xs b => edit (name b) (create b) isVoid (f b) xs) xs =
      xs ++ bs.map fun b => f b (create b) := by
  induction bs generalizing xs with
  | nil => simp
  | cons b bs ih =>
    obtain ⟨hb, hbs⟩ := List.pairwise_cons.1 hd
    rw [List.foldl_cons, edit_of_missing (fun x hx => hxs x hx b List.mem_cons_self)
        (hv b List.mem_cons_self), ih (fun c hc => hv c (List.mem_cons_of_mem _ hc)) hbs]
    · rw [List.append_assoc, List.map_cons, List.singleton_append]
    · intro x hx c hc'
      rcases List.mem_append.1 hx with hx | hx
      · exact hxs x hx c (List.mem_cons_of_mem _ hc')
      · rw [List.mem_singleton.1 hx, hf, hc]
        exact hb c hc'

/-- **Edits of children that are there, in order, change each in its place.** -/
theorem foldl_edit_old {a : β → α} (ha : ∀ b, Named.name (a b) = name b)
    (hf : ∀ b x, Named.name (f b x) = Named.name x) {bs : List β}
    (hv : ∀ b ∈ bs, isVoid (f b (a b)) = false) (hd : DistinctNames name bs) (xs : List α)
    (hxs : ∀ x ∈ xs, ∀ b ∈ bs, sameFolded (Named.name x) (name b) = false) :
    bs.foldl (fun xs b => edit (name b) (create b) isVoid (f b) xs) (xs ++ bs.map a) =
      xs ++ bs.map fun b => f b (a b) := by
  induction bs generalizing xs with
  | nil => rfl
  | cons b bs ih =>
    obtain ⟨hb, hbs⟩ := List.pairwise_cons.1 hd
    rw [List.foldl_cons, List.map_cons,
      edit_append_cons (bs.map a) (fun x hx => hxs x hx b List.mem_cons_self)
        (by rw [ha, sameFolded_refl]) (hv b List.mem_cons_self),
      ← List.singleton_append, ← List.append_assoc,
      ih (fun c hc => hv c (List.mem_cons_of_mem _ hc)) hbs]
    · rw [List.append_assoc, List.map_cons, List.singleton_append]
    · intro x hx c hc
      rcases List.mem_append.1 hx with hx | hx
      · exact hxs x hx c (List.mem_cons_of_mem _ hc)
      · rw [List.mem_singleton.1 hx, hf, ha]
        exact hb c hc

end Fold

end MissionText.Siblings
