/-
  The history of names.

  * `IsHistory` is what becomes of a list of names while others are put last or are
    dropped: the names that stay keep their order.
  * `IsListing` is what a run of calls makes of the names of the children of a node:
    first those that were there all the time, then those that were created, in the
    order of their creating calls (`IsCreatedAt`) and spelled as there.
  * `isListing_after`: every run on a reachable catalog makes such lists, at every
    node.
-/
import MissionText.Proofs.Catalog.Listing

namespace MissionText

/-! ## Lists of names over time -/

section

variable {L : Nat → List String} {k i : Nat} {n : String}

/-- Up to the time `k` the name is there since it was put last after the time `i`. -/
structure IsBorn (L : Nat → List String) (k i : Nat) (n : String) : Prop where
  lt : i < k
  absent : ¬ Lists n (L i)
  last : L (i + 1) = L i ++ [n]
  present : ∀ j, i < j → j ≤ k → Lists n (L j)

theorem IsBorn.stays (h : IsBorn L k i n) (hn : Lists n (L (k + 1))) : IsBorn L (k + 1) i n := by
  refine ⟨Nat.lt_succ_of_lt h.lt, h.absent, h.last, fun j hj hjk => ?_⟩
  rcases Nat.le_succ_iff.1 hjk with hjk | rfl
  · exact h.present j hj hjk
  · exact hn

/-- The names at the time `k` are some that were there all the time, and others in the
    order in which they were put last. -/
structure IsHistory (L : Nat → List String) (k : Nat) (old new : List String) : Prop where
  names : L k = old ++ new
  sublist : old.Sublist (L 0)
  mem_old : ∀ n ∈ L 0, n ∈ old ↔ ∀ j ≤ k, Lists n (L j)
  born : ∀ n ∈ new, ∃ i, IsBorn L k i n
  ordered : new.Pairwise fun m n => ∃ i j, i < j ∧ IsBorn L k i m ∧ IsBorn L k j n

/-- After a step the names that are still listed come first, and after them at most one
    that is born in it. -/
theorem exists_eq_filter_append_born
    (hk : L (k + 1) = L k ∨ ∃ n, Relists n (L k) (L (k + 1))) :
    ∃ last, L (k + 1) = (L k).filter (Lists · (L (k + 1))) ++ last ∧
      (last = [] ∨ ∃ n, last = [n] ∧ IsBorn L (k + 1) k n) := by
  rcases hk with hk | ⟨n, hk⟩
  · refine ⟨[], ?_, .inl rfl⟩
    rw [hk, filter_lists_of_subset (List.Subset.refl _), List.append_nil]
  · obtain ⟨last, heq, hlast⟩ := hk.exists_eq_filter_append
    refine ⟨last, heq, hlast.imp_right ?_⟩
    rintro ⟨rfl, habsent, hpresent⟩
    refine ⟨n, rfl, Nat.lt_succ_self k, habsent, hk.eq_append habsent hpresent, ?_⟩
    intro j hj hjk
    rwa [Nat.le_antisymm hjk hj]

/-- **One step of a history.** -/
theorem IsHistory.step {old new : List String} (h : IsHistory L k old new)
    (hk : L (k + 1) = L k ∨ ∃ n, Relists n (L k) (L (k + 1))) :
    ∃ old new, IsHistory L (k + 1) old new := by
  obtain ⟨last, heq, hlast⟩ := exists_eq_filter_append_born hk
  -- The names that are listed still keep what is known of them.
  have hstays {i : Nat} {n : String} (hi : IsBorn L k i n)
      (hn : n ∈ new.filter (Lists · (L (k + 1)))) : IsBorn L (k + 1) i n :=
    hi.stays (of_decide_eq_true (List.mem_filter.1 hn).2)
  refine ⟨old.filter (Lists · (L (k + 1))), new.filter (Lists · (L (k + 1))) ++ last, ?_⟩
  constructor
  case names =>
    calc L (k + 1)
      _ = (L k).filter (Lists · (L (k + 1))) ++ last := heq
      _ = _ := by rw [h.names, List.filter_append, List.append_assoc]
  case sublist => exact List.filter_sublist.trans h.sublist
  case mem_old =>
    intro n hn
    rw [List.mem_filter, h.mem_old n hn, decide_eq_true_iff]
    constructor
    · rintro ⟨hj, hlast⟩ j hjk
      rcases Nat.le_succ_iff.1 hjk with hjk | rfl
      · exact hj j hjk
      · exact hlast
    · intro hj
      exact ⟨fun j hjk => hj j (Nat.le_succ_of_le hjk), hj (k + 1) (Nat.le_refl _)⟩
  case born =>
    intro n hn
    rcases List.mem_append.1 hn with hn | hn
    · obtain ⟨i, hi⟩ := h.born n (List.mem_filter.1 hn).1
      exact ⟨i, hstays hi hn⟩
    · rcases hlast with rfl | ⟨m, rfl, hm⟩
      · cases hn
      · rw [List.mem_singleton.1 hn]
        exact ⟨k, hm⟩
  case ordered =>
    refine List.pairwise_append.2 ⟨?_, ?_, ?_⟩
    · refine (h.ordered.filter _).imp_of_mem ?_
      rintro m n hm hn ⟨i, j, hij, hi, hj⟩
      exact ⟨i, j, hij, hstays hi hm, hstays hj hn⟩
    · rcases hlast with rfl | ⟨m, rfl, -⟩
      · exact List.Pairwise.nil
      · exact List.pairwise_singleton _ _
    · intro m hm n hn
      obtain ⟨i, hi⟩ := h.born m (List.mem_filter.1 hm).1
      rcases hlast with rfl | ⟨l, rfl, hl⟩
      · cases hn
      · rw [List.mem_singleton.1 hn]
        exact ⟨i, k, hi.lt, hstays hi hm, hl⟩

/-- **All steps of a history.** -/
theorem exists_isHistory (k : Nat)
    (h : ∀ i < k, L (i + 1) = L i ∨ ∃ n, Relists n (L i) (L (i + 1))) :
    ∃ old new, IsHistory L k old new := by
  induction k with
  | zero =>
    refine ⟨L 0, [], (List.append_nil _).symm, List.Sublist.refl _, fun n hn => ?_,
      List.forall_mem_nil _, List.Pairwise.nil⟩
    refine iff_of_true hn fun j hj => ?_
    rw [Nat.le_zero.1 hj]
    exact Lists.of_mem hn
  | succ k ih =>
    obtain ⟨old, new, hk⟩ := ih fun i hi => h i (Nat.lt_succ_of_lt hi)
    exact hk.step (h k (Nat.lt_succ_self k))

end

/-! ## Runs -/

namespace Project

/-- The project after calls one after the other. -/
def after (p : Project) (ops : List Operation) : Project := ops.foldl (fun p o => o.onProject p) p

/-- The call at the position `i` of a run creates the child of this name: it gives the
    child a text when there is none, and from then on there always is one.  It is the
    first call to do so since the child was last absent, and it has this spelling. -/
structure IsCreatedAt (p : Project) (ops : List Operation) (a : Address) (l : Level) (i : Nat)
    (n : String) : Prop where
  call : ∃ b text, ops[i]? = some (.set b text) ∧ text ≠ "" ∧ b.parent l = a.parent l ∧
    b.name l = n
  absent : ¬ (p.after (ops.take i)).Has a l n
  present : ∀ j, i < j → j ≤ ops.length → (p.after (ops.take j)).Has a l n

/-- What a run makes of the names at a level on the way to an address. -/
structure IsListing (p : Project) (ops : List Operation) (a : Address) (l : Level) : Prop where
  /-- The children that have a text, or have one below them, are listed. -/
  listed : ∀ n, Lists n ((p.after ops).names a l) ↔ (p.after ops).Has a l n
  /-- No child is listed twice. -/
  distinct : ((p.after ops).names a l).Pairwise fun m n => sameFolded m n = false
  /-- First come the children that were there all the time, as before, then those that
      were created, in the order of their creating calls. -/
  order : ∃ old new, (p.after ops).names a l = old ++ new ∧
    old.Sublist (p.names a l) ∧
    (∀ n ∈ p.names a l, n ∈ old ↔ ∀ j ≤ ops.length, (p.after (ops.take j)).Has a l n) ∧
    (∀ n ∈ new, ∃! i, p.IsCreatedAt ops a l i n) ∧
    new.Pairwise fun m n => ∃ i j, i < j ∧ p.IsCreatedAt ops a l i m ∧ p.IsCreatedAt ops a l j n

variable {p : Project} {ops : List Operation} {a : Address} {l : Level} {i j : Nat} {n : String}

theorem after_append (p : Project) (ops ops' : List Operation) :
    p.after (ops ++ ops') = (p.after ops).after ops' := List.foldl_append

theorem WellFormed.after (h : p.WellFormed) (ops : List Operation) : (p.after ops).WellFormed := by
  induction ops generalizing p with
  | nil => exact h
  | cons o ops ih => exact ih (Indexed.Project.wellFormed_apply h o)

theorem after_take_succ (p : Project) (h : i < ops.length) :
    p.after (ops.take (i + 1)) = ops[i].onProject (p.after (ops.take i)) := by
  rw [← List.take_append_getElem h, after_append]
  rfl

theorem IsCreatedAt.eq (hi : p.IsCreatedAt ops a l i n) (hj : p.IsCreatedAt ops a l j n) :
    i = j := by
  have hlt {i : Nat} (h : p.IsCreatedAt ops a l i n) : i < ops.length := by
    obtain ⟨b, text, hcall, -⟩ := h.call
    exact (List.getElem?_eq_some_iff.1 hcall).1
  rcases Nat.lt_trichotomy i j with hij | rfl | hij
  · exact absurd (hi.present j hij (Nat.le_of_lt (hlt hj))) hj.absent
  · rfl
  · exact absurd (hj.present i hij (Nat.le_of_lt (hlt hi))) hi.absent

/-- What puts a name last is a text for a child that is addressed by this name. -/
theorem WellFormed.eq_set_of_last (h : p.WellFormed) {o : Operation}
    (habsent : ¬ Lists n (p.names a l))
    (hlast : (o.onProject p).names a l = p.names a l ++ [n]) :
    ∃ b text, o = .set b text ∧ text ≠ "" ∧ b.parent l = a.parent l ∧ b.name l = n := by
  rw [Operation.onProject_eq_set] at hlast
  have hnames := names_set o.text h (a := o.address) (b := a) l
  rw [hlast, Follows] at hnames
  split_ifs at hnames with hparent
  · have htext : o.text ≠ "" := by
      intro htext
      have hafter := (h.set o.address o.text).lists_names_iff a l n
      rw [hlast, htext] at hafter
      have hhas := h.has_of_has_erase (hafter.1 (Lists.of_mem (by simp)))
      exact habsent ((h.lists_names_iff a l n).2 hhas)
    cases o with
    | set b text => exact ⟨b, text, rfl, htext, hparent, hnames.eq_of_append⟩
    | remove b => exact absurd rfl htext
  · simp at hnames

/-- A name that is put last is put there by a call that creates the child. -/
theorem WellFormed.isCreatedAt (h : p.WellFormed)
    (hi : IsBorn (fun j => (p.after (ops.take j)).names a l) ops.length i n) :
    p.IsCreatedAt ops a l i n := by
  have hiff (j : Nat) := (h.after (ops.take j)).lists_names_iff a l n
  have hlt := hi.lt
  have hlast := hi.last
  constructor
  case call =>
    rw [after_take_succ p hlt] at hlast
    obtain ⟨b, text, hset, hrest⟩ := (h.after _).eq_set_of_last hi.absent hlast
    exact ⟨b, text, by rw [List.getElem?_eq_getElem hlt, hset], hrest⟩
  case absent => exact fun hhas => hi.absent ((hiff i).2 hhas)
  case present => exact fun j hj hjk => (hiff j).1 (hi.present j hj hjk)

/-- **A run of calls.** -/
theorem WellFormed.isListing (h : p.WellFormed) (ops : List Operation) (a : Address)
    (l : Level) : p.IsListing ops a l := by
  have hstep : ∀ i < ops.length,
      (p.after (ops.take (i + 1))).names a l = (p.after (ops.take i)).names a l ∨
        ∃ n, Relists n ((p.after (ops.take i)).names a l)
          ((p.after (ops.take (i + 1))).names a l) := by
    intro i hi
    have hnames := names_set ops[i].text (h.after (ops.take i)) (a := ops[i].address) (b := a) l
    rw [after_take_succ p hi, Operation.onProject_eq_set]
    unfold Follows at hnames
    split_ifs at hnames
    · exact .inr ⟨_, hnames⟩
    · exact .inl hnames
  constructor
  case listed => exact (h.after ops).lists_names_iff a l
  case distinct => exact (h.after ops).distinct_names a l
  case order =>
    obtain ⟨old, new, hist⟩ := exists_isHistory
      (L := fun j => (p.after (ops.take j)).names a l) ops.length hstep
    have hnames := hist.names
    rw [List.take_length] at hnames
    refine ⟨old, new, hnames, hist.sublist, fun n hn => ?_, fun n hn => ?_, ?_⟩
    · rw [hist.mem_old n hn]
      exact forall₂_congr fun j _ => (h.after (ops.take j)).lists_names_iff a l n
    · obtain ⟨i, hi⟩ := hist.born n hn
      exact ⟨i, h.isCreatedAt hi, fun j hj => hj.eq (h.isCreatedAt hi)⟩
    · refine hist.ordered.imp ?_
      rintro m n ⟨i, j, hij, hi, hj⟩
      exact ⟨i, j, hij, h.isCreatedAt hi, h.isCreatedAt hj⟩

end Project

/-! ## Catalogs with indexes -/

namespace Indexed.Project

/-- The catalog after calls one after the other. -/
def after (p : Project) (ops : List Operation) : Project := ops.foldl (fun p o => o.onIndexed p) p

variable {p : Project}

theorem plain_after (h : p.Reachable) (ops : List Operation) :
    (p.after ops).plain = p.plain.after ops := by
  have hwell := h.plain.wellFormed
  obtain ⟨M, hM⟩ := hwell.exists_agrees
  exact (agrees_foldl ops h.sound hwell hM).2.1

/-- **Order and spelling are preserved**: at every node, a run of calls lists the
    children that it left alone as before, and after them those that it created, as
    and in the order in which it did; and a single call moves and renames nothing. -/
theorem isListing_after (h : p.Reachable) (ops : List Operation) (a : Address) (l : Level) :
    (p.after ops).plain = p.plain.after ops ∧ p.plain.IsListing ops a l ∧
      ∀ o, (p.plain.after ops).IsRelisted o a l :=
  ⟨plain_after h ops, h.plain.wellFormed.isListing ops a l,
    fun o => (h.plain.wellFormed.after ops).isRelisted o a l⟩

/-- A catalog with one package. -/
def onePackage : Project := (new "Test").set ⟨"First", "c", "k", originalTag⟩ "x"

/-- Calls that create two packages, address the first of these in other letters, drop it
    and create it again. -/
def recreation : List Operation :=
  [.set ⟨"Alpha", "c", "k", originalTag⟩ "a", .set ⟨"Beta", "c", "k", originalTag⟩ "b",
    .set ⟨"ALPHA", "C", "K", originalTag⟩ "a", .remove ⟨"alpha", "c", "k", originalTag⟩,
    .set ⟨"alpha", "c", "k", originalTag⟩ "a"]

theorem isListing_after_recreation :
    onePackage.Reachable ∧
      (onePackage.after recreation).plain.names ⟨"", "", "", ""⟩ .package =
        ["First", "Beta", "alpha"] ∧
      (onePackage.after recreation).plain = onePackage.plain.after recreation ∧
      onePackage.plain.IsListing recreation ⟨"", "", "", ""⟩ .package ∧
      ∀ o, (onePackage.plain.after recreation).IsRelisted o ⟨"", "", "", ""⟩ .package := by
  have hreachable : onePackage.Reachable := (Reachable.new _).set _ _
  exact ⟨hreachable, by decide +kernel,
    isListing_after hreachable recreation ⟨"", "", "", ""⟩ .package⟩

end Indexed.Project

end MissionText
