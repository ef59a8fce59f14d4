/-
  Catalogs are told apart by their JSON.

  * `Json.IsDelimited`: where a written value ends can be told without what comes
    after it.  Strings are written so (`isDelimited_quoted`, by reading them
    character by character), and with their parts lists and records are
    (`IsDelimited.list`, `IsDelimited.record`).
  * `Project.isDelimited_json`: hence a catalog is, level by level, and no two
    catalogs have the same JSON.
  * `Indexed.Project.IsSame` compares catalogs together with their indexes, which
    are not written.  `isSame_iff_plain`: in reachable catalogs they are determined
    by what is.
-/
import Mathlib.Data.List.Forall2
import Mathlib.Logic.Function.Basic
import MissionText.Catalog.Json
import MissionText.Proofs.Catalog.Indexed

namespace MissionText

namespace Json

/-! ## Delimited values -/

/-- A written value is followed by what is not a part of it: it is known from a text
    that starts with it, and so is the rest of the text. -/
def IsDelimited {α : Type} (write : α → String) : Prop :=
  ∀ ⦃x y : α⦄ ⦃r s : String⦄, write x ++ r = write y ++ s → x = y ∧ r = s

section

variable {α β : Type} {write : α → String} {f : α → String} {g : β → String}

theorem IsDelimited.injective (h : IsDelimited write) : Function.Injective write := by
  intro x y hxy
  have hrest : write x ++ "" = write y ++ "" := by rw [hxy]
  exact (h hrest).1

theorem IsDelimited.comp (h : IsDelimited write) {v : β → α} (hv : Function.Injective v) :
    IsDelimited (write ∘ v) := by
  intro x y r s hxy
  obtain ⟨hview, hrest⟩ := h hxy
  exact ⟨hv hview, hrest⟩

/-! ## Strings -/

/-- The value of a hexadecimal digit. -/
def hexValue (c : Char) : Nat :=
  if c.toNat < 'a'.toNat then c.toNat - '0'.toNat else c.toNat - 'a'.toNat + 10

theorem hexValue_hexDigit {n : Nat} (h : n < 16) : hexValue (hexDigit n) = n := by
  have hall : ∀ n < 16, hexValue (hexDigit n) = n := by decide
  exact hall n h

/-- The first character that is written, and what follows it; none where the string
    ends. -/
def readChar? : List Char → Option (Char × List Char)
  | '\\' :: 'b' :: cs => some ('\x08', cs)
  | '\\' :: 'f' :: cs => some ('\x0C', cs)
  | '\\' :: 'n' :: cs => some ('\n', cs)
  | '\\' :: 'r' :: cs => some ('\r', cs)
  | '\\' :: 't' :: cs => some ('\t', cs)
  | '\\' :: 'u' :: _ :: _ :: h :: l :: cs =>
    some (Char.ofNat (16 * hexValue h + hexValue l), cs)
  | '\\' :: c :: cs => some (c, cs)
  | '"' :: _ => none
  | c :: cs => some (c, cs)
  | [] => none

/-- **A written character is read back**, whatever follows it. -/
theorem readChar?_escapeChar (c : Char) (cs : List Char) :
    readChar? (escapeChar c ++ cs) = some (c, cs) := by
  unfold escapeChar
  split_ifs with hquote hslash hb hf hn hr ht hcontrol
  · rw [hquote]
    rfl
  · rw [hslash]
    rfl
  · rw [hb]
    rfl
  · rw [hf]
    rfl
  · rw [hn]
    rfl
  · rw [hr]
    rfl
  · rw [ht]
    rfl
  · have hhigh := hexValue_hexDigit (n := c.toNat / 16) (by omega)
    have hlow := hexValue_hexDigit (n := c.toNat % 16) (by omega)
    have hread : readChar? ('\\' :: 'u' :: '0' :: '0' :: hexDigit (c.toNat / 16) ::
        hexDigit (c.toNat % 16) :: cs) =
          some (Char.ofNat (16 * hexValue (hexDigit (c.toNat / 16)) +
            hexValue (hexDigit (c.toNat % 16))), cs) := rfl
    refine hread.trans ?_
    rw [hhigh, hlow, Nat.div_add_mod, Char.ofNat_toNat]
  · unfold readChar?
    split <;> simp_all

/-- A string ends where no character is read. -/
theorem flatMap_escapeChar_inj {cs ds r s : List Char}
    (h : cs.flatMap escapeChar ++ '"' :: r = ds.flatMap escapeChar ++ '"' :: s) :
    cs = ds ∧ r = s := by
  have hread (c : Char) (cs r : List Char) :
      readChar? ((c :: cs).flatMap escapeChar ++ '"' :: r) =
        some (c, cs.flatMap escapeChar ++ '"' :: r) := by
    rw [List.flatMap_cons, List.append_assoc, readChar?_escapeChar]
  have hend (r : List Char) : readChar? ([].flatMap escapeChar ++ '"' :: r) = none := rfl
  induction cs generalizing ds with
  | nil =>
    cases ds with
    | nil => exact ⟨rfl, (List.cons.inj h).2⟩
    | cons d ds =>
      have hfirst := congrArg readChar? h
      rw [hend, hread] at hfirst
      cases hfirst
  | cons c cs ih =>
    have hfirst := congrArg readChar? h
    rw [hread] at hfirst
    cases ds with
    | nil =>
      rw [hend] at hfirst
      cases hfirst
    | cons d ds =>
      rw [hread] at hfirst
      obtain ⟨rfl, hrest⟩ := Prod.mk.inj (Option.some.inj hfirst)
      obtain ⟨rfl, rfl⟩ := ih hrest
      exact ⟨rfl, rfl⟩

/-- **It is known where a string ends.** -/
theorem isDelimited_quoted : IsDelimited quoted := by
  intro s t r u h
  have hchars := congrArg String.toList h
  simp only [quoted, String.toList_append, String.toList_ofList, List.append_assoc] at hchars
  obtain ⟨hs, hr⟩ := flatMap_escapeChar_inj (List.cons.inj hchars).2
  exact ⟨String.toList_inj.1 hs, String.toList_inj.1 hr⟩

/-! ## Records and lists -/

/-- **A record of two members is delimited** if they are. -/
theorem IsDelimited.record (hf : IsDelimited f) (hg : IsDelimited g) (depth : Nat) (a b : String) :
    IsDelimited fun x : α × β => Json.record depth [(a, f x.1), (b, g x.2)] := by
  have hrecord (x : α × β) (r : String) :
      Json.record depth [(a, f x.1), (b, g x.2)] ++ r =
        "\x7b" ++ line (depth + 1) ++ quoted a ++ ": " ++ (f x.1 ++
          ("," ++ line (depth + 1) ++ quoted b ++ ": " ++ (g x.2 ++
            (line depth ++ "\x7d" ++ r)))) := by
    simp [Json.record, bracketed, String.append_assoc]
  intro x y r s h
  simp only [hrecord, String.append_right_inj] at h
  obtain ⟨hfirst, h⟩ := hf h
  rw [String.append_right_inj] at h
  obtain ⟨hsecond, h⟩ := hg h
  rw [String.append_right_inj] at h
  exact ⟨Prod.ext hfirst hsecond, h⟩

/-- What follows the first item of a list. -/
def followers (write : α → String) (depth : Nat) : List α → String
  | [] => line depth ++ "]"
  | x :: xs => "," ++ line (depth + 1) ++ (write x ++ followers write depth xs)

theorem list_cons (write : α → String) (depth : Nat) (x : α) (xs : List α) :
    Json.list depth ((x :: xs).map write) =
      "[" ++ line (depth + 1) ++ (write x ++ followers write depth xs) := by
  have hitems (x : α) : String.intercalate ("," ++ line (depth + 1)) ((x :: xs).map write) ++
      (line depth ++ "]") = write x ++ followers write depth xs := by
    induction xs generalizing x with
    | nil => simp [followers]
    | cons y ys ih =>
      rw [List.map_cons, List.map_cons, String.intercalate_cons_cons, followers, ← ih y,
        List.map_cons]
      simp only [String.append_assoc]
  rw [← hitems]
  simp [Json.list, bracketed, String.append_assoc]

/-- The end of a list is told from another item. -/
theorem IsDelimited.followers (h : IsDelimited write) (depth : Nat) :
    IsDelimited (followers write depth) := by
  have hend (y : α) (ys : List α) (r s : String) :
      Json.followers write depth [] ++ r ≠ Json.followers write depth (y :: ys) ++ s := by
    intro heq
    have hfirst := congrArg (·.toList.head?) heq
    simp [Json.followers, line, String.toList_append] at hfirst
  intro xs
  induction xs with
  | nil =>
    intro ys r s heq
    cases ys with
    | nil => exact ⟨rfl, (String.append_right_inj _).1 heq⟩
    | cons y ys => exact absurd heq (hend y ys r s)
  | cons x xs ih =>
    intro ys r s heq
    cases ys with
    | nil => exact absurd heq.symm (hend x xs s r)
    | cons y ys =>
      simp only [Json.followers, String.append_assoc, String.append_right_inj] at heq
      obtain ⟨rfl, hrest⟩ := h heq
      obtain ⟨rfl, rfl⟩ := ih hrest
      exact ⟨rfl, rfl⟩

/-- **A list is delimited** if its items are. -/
theorem IsDelimited.list (h : IsDelimited write) (depth : Nat) :
    IsDelimited fun xs : List α => Json.list depth (xs.map write) := by
  have hempty (x : α) (xs : List α) (r s : String) :
      Json.list depth ([].map write) ++ r ≠ Json.list depth ((x :: xs).map write) ++ s := by
    intro heq
    have hsecond := congrArg (·.toList[1]?) heq
    rw [list_cons] at hsecond
    simp [Json.list, bracketed, line, String.toList_append] at hsecond
  intro xs ys r s heq
  cases xs with
  | nil =>
    cases ys with
    | nil => exact ⟨rfl, (String.append_right_inj _).1 heq⟩
    | cons y ys => exact absurd heq (hempty y ys r s)
  | cons x xs =>
    cases ys with
    | nil => exact absurd heq.symm (hempty x xs s r)
    | cons y ys =>
      simp only [list_cons, String.append_assoc, String.append_right_inj] at heq
      obtain ⟨rfl, hrest⟩ := h heq
      obtain ⟨rfl, rfl⟩ := h.followers depth hrest
      exact ⟨rfl, rfl⟩

end

end Json

/-! ## Catalogs -/

open Json (IsDelimited isDelimited_quoted)

theorem Translation.isDelimited_json (depth : Nat) : IsDelimited (Translation.json depth) := by
  have hview : Function.Injective fun t : Translation => (t.language, t.text) :=
    Function.LeftInverse.injective (g := fun x => ⟨x.1, x.2⟩) fun _ => rfl
  have hrecord := (isDelimited_quoted.record isDelimited_quoted depth "language" "text").comp hview
  exact hrecord

theorem Key.isDelimited_json (depth : Nat) : IsDelimited (Key.json depth) := by
  have hview : Function.Injective fun k : Key => (k.id, k.translations) :=
    Function.LeftInverse.injective (g := fun x => ⟨x.1, x.2⟩) fun _ => rfl
  have hlist := (Translation.isDelimited_json (depth + 2)).list (depth + 1)
  have hrecord := (isDelimited_quoted.record hlist depth "id" "translations").comp hview
  exact hrecord

theorem Container.isDelimited_json (depth : Nat) : IsDelimited (Container.json depth) := by
  have hview : Function.Injective fun c : Container => (c.name, c.keys) :=
    Function.LeftInverse.injective (g := fun x => ⟨x.1, x.2⟩) fun _ => rfl
  have hlist := (Key.isDelimited_json (depth + 2)).list (depth + 1)
  have hrecord := (isDelimited_quoted.record hlist depth "name" "keys").comp hview
  exact hrecord

theorem Package.isDelimited_json (depth : Nat) : IsDelimited (Package.json depth) := by
  have hview : Function.Injective fun g : Package => (g.name, g.containers) :=
    Function.LeftInverse.injective (g := fun x => ⟨x.1, x.2⟩) fun _ => rfl
  have hlist := (Container.isDelimited_json (depth + 2)).list (depth + 1)
  have hrecord := (isDelimited_quoted.record hlist depth "name" "containers").comp hview
  exact hrecord

/-- **It is known where a catalog ends.** -/
theorem Project.isDelimited_json : IsDelimited Project.json := by
  have hview : Function.Injective fun p : Project => (p.name, p.packages) :=
    Function.LeftInverse.injective (g := fun x => ⟨x.1, x.2⟩) fun _ => rfl
  have hlist := (Package.isDelimited_json 2).list 1
  have hrecord := (isDelimited_quoted.record hlist 0 "name" "packages").comp hview
  exact hrecord

/-! ## Catalogs with their indexes -/

theorem forall₂_iff_map_eq {α β : Type} {same : α → α → Prop} {v : α → β} {xs ys : List α}
    (h : ∀ x ∈ xs, ∀ y ∈ ys, same x y ↔ v x = v y) :
    List.Forall₂ same xs ys ↔ xs.map v = ys.map v := by
  induction xs generalizing ys with
  | nil => cases ys <;> simp
  | cons x xs ih =>
    cases ys with
    | nil => simp
    | cons y ys =>
      have htail := ih fun x hx y hy => h x (List.mem_cons_of_mem _ hx) y (List.mem_cons_of_mem _ hy)
      rw [List.forall₂_cons, List.map_cons, List.map_cons, List.cons.injEq, htail,
        h x List.mem_cons_self y List.mem_cons_self]

namespace Children

variable {α β : Type} [Named α] {c d : Children α}

/-- Children that are the same one by one, with the same position for every name. -/
structure IsSame (same : α → α → Prop) (c d : Children α) : Prop where
  items : List.Forall₂ same c.items d.items
  index : ∀ key, c.index.lookup key = d.index.lookup key

theorem IsIndexed.lookup_eq_some_iff (h : c.IsIndexed) {key : String} {i : Nat} :
    c.index.lookup key = some i ↔ ((c.items.map Named.name).map lowerCased)[i]? = some key := by
  rw [Children.lookup_eq_some_iff h.nodup, h.mem_index]
  simp

/-- **An exact index is determined by the names** of the children. -/
theorem IsIndexed.lookup_congr (hc : c.IsIndexed) (hd : d.IsIndexed)
    (hnames : c.items.map Named.name = d.items.map Named.name) (key : String) :
    c.index.lookup key = d.index.lookup key := by
  refine Option.ext fun i => ?_
  rw [hc.lookup_eq_some_iff, hnames, ← hd.lookup_eq_some_iff]

/-- Sound children are the same if they look the same, for a view that shows names. -/
theorem Sound.isSame_iff {P : α → Prop} {isVoid : α → Bool} {same : α → α → Prop} {v : α → β}
    {n : β → String} (hc : c.Sound P isVoid) (hd : d.Sound P isVoid)
    (hsame : ∀ x y, P x → P y → (same x y ↔ v x = v y)) (hname : ∀ x, n (v x) = Named.name x) :
    c.IsSame same d ↔ c.items.map v = d.items.map v := by
  have hitems : List.Forall₂ same c.items d.items ↔ c.items.map v = d.items.map v :=
    forall₂_iff_map_eq fun x hx y hy =>
      hsame x y (hc.wellFormed.each x hx) (hd.wellFormed.each y hy)
  constructor
  · intro h
    exact hitems.1 h.items
  · intro h
    refine ⟨hitems.2 h, hc.indexed.lookup_congr hd.indexed ?_⟩
    have hnames := congrArg (List.map n) h
    simpa only [List.map_map, Function.comp_def, hname] using hnames

end Children

namespace Indexed

/-- Keys are the same with their indexes. -/
def Key.IsSame (k l : Key) : Prop :=
  k.id = l.id ∧ k.translations.IsSame Eq l.translations

/-- Containers are the same with their indexes. -/
def Container.IsSame (c d : Container) : Prop :=
  c.name = d.name ∧ c.keys.IsSame Key.IsSame d.keys

/-- Packages are the same with their indexes. -/
def Package.IsSame (g h : Package) : Prop :=
  g.name = h.name ∧ g.containers.IsSame Container.IsSame h.containers

/-- **Catalogs are the same**: in the name, in all nodes, their order, spelling and
    texts, and in the index at every level. -/
def Project.IsSame (p q : Project) : Prop :=
  p.name = q.name ∧ p.packages.IsSame Package.IsSame q.packages

theorem Key.Sound.isSame_iff_plain {k l : Key} (hk : k.Sound) (hl : l.Sound) :
    k.IsSame l ↔ k.plain = l.plain := by
  have htranslations : k.translations.IsSame Eq l.translations ↔
      (k.translations.items.map fun t => t) = l.translations.items.map fun t => t :=
    Children.Sound.isSame_iff (n := Translation.language) hk hl (fun _ _ _ _ => Iff.rfl) fun _ =>
      rfl
  rw [IsSame, htranslations, List.map_id', List.map_id', plain, plain, MissionText.Key.mk.injEq]

theorem Container.Sound.isSame_iff_plain {c d : Container} (hc : c.Sound) (hd : d.Sound) :
    c.IsSame d ↔ c.plain = d.plain := by
  have hkeys : c.keys.IsSame Key.IsSame d.keys ↔
      c.keys.items.map Key.plain = d.keys.items.map Key.plain :=
    Children.Sound.isSame_iff (n := MissionText.Key.id) hc hd (fun _ _ => Key.Sound.isSame_iff_plain)
      fun _ => rfl
  rw [IsSame, hkeys, plain, plain, MissionText.Container.mk.injEq]

theorem Package.Sound.isSame_iff_plain {g h : Package} (hg : g.Sound) (hh : h.Sound) :
    g.IsSame h ↔ g.plain = h.plain := by
  have hcontainers : g.containers.IsSame Container.IsSame h.containers ↔
      g.containers.items.map Container.plain = h.containers.items.map Container.plain :=
    Children.Sound.isSame_iff (n := MissionText.Container.name) hg hh
      (fun _ _ => Container.Sound.isSame_iff_plain)
      fun _ => rfl
  rw [IsSame, hcontainers, plain, plain, MissionText.Package.mk.injEq]

/-- **The indexes of a catalog are determined by its nodes.** -/
theorem Project.Sound.isSame_iff_plain {p q : Project} (hp : p.Sound) (hq : q.Sound) :
    p.IsSame q ↔ p.plain = q.plain := by
  have hpackages : p.packages.IsSame Package.IsSame q.packages ↔
      p.packages.items.map Package.plain = q.packages.items.map Package.plain :=
    Children.Sound.isSame_iff (n := MissionText.Package.name) hp hq
      (fun _ _ => Package.Sound.isSame_iff_plain)
      fun _ => rfl
  rw [IsSame, hpackages, plain, plain, MissionText.Project.mk.injEq]

/-- **The JSON of a catalog loses nothing**: reachable catalogs have the same JSON only
    if they are the same, with their indexes. -/
theorem Project.json_plain_eq_iff {p q : Project} (hp : p.Reachable) (hq : q.Reachable) :
    p.plain.json = q.plain.json ↔ p.IsSame q := by
  rw [hp.sound.isSame_iff_plain hq.sound]
  constructor
  · intro h
    exact MissionText.Project.isDelimited_json.injective h
  · intro h
    rw [h]

/-- A catalog with names and texts that look like JSON, a control character among
    them. -/
def quotingProject : Project :=
  ((Project.new "\"]\x7d\n").set ⟨"Main", "a\\", "k", "Original"⟩ "\", \"x\": \"\x01\\").set
    ⟨"Main", "b", "K", "German"⟩ "é"

/-- The same catalog after another history, in which nodes come and go. -/
def rebuiltProject : Project :=
  { (((((Project.new "Old").set ⟨"Main", "c", "k", "Original"⟩ "gone").set
      ⟨"main", "a\\", "k", "original"⟩ "").set
      ⟨"Main", "a\\", "k", "Original"⟩ "\", \"x\": \"\x01\\").remove
      ⟨"MAIN", "C", "K", "ORIGINAL"⟩).2.set ⟨"MAIN", "b", "K", "German"⟩ "é" with
    name := "\"]\x7d\n" }

theorem Project.isSame_rebuiltProject :
    quotingProject.Reachable ∧ rebuiltProject.Reachable ∧
      quotingProject.plain.json = rebuiltProject.plain.json ∧
      quotingProject.IsSame rebuiltProject := by
  have hquoting : quotingProject.Reachable := ((Reachable.new _).set _ _).set _ _
  have hrebuilt : rebuiltProject.Reachable :=
    (((((Reachable.new _).set _ _).set _ _).set _ _).remove _ |>.set _ _).rename _
  have hplain : quotingProject.plain = rebuiltProject.plain := by decide +kernel
  have hjson : quotingProject.plain.json = rebuiltProject.plain.json := congrArg _ hplain
  exact ⟨hquoting, hrebuilt, hjson, (Project.json_plain_eq_iff hquoting hrebuilt).1 hjson⟩

end Indexed

end MissionText
