/-
  What is found in a catalog after it is changed.

  * `Project.textAt` is the text at an address, if there is one; `locate?` is the
    key at a place, with the names of its owners as they are spelled.
  * `translation?_set`: a write changes the translation at its address and no other
    one.
  * `translation?_setAll`, `textAt_setAll`: after many writes the last one to an
    address counts.  `writesTo` are those to one address.
  * `isEmpty_iff_textAt`: a well-formed catalog is empty if it has no text.
  * `locate?_of_findKey?`, `findKey?_eq_none_iff`: what a search by id alone says
    about the keys at places.
-/
import MissionText.Catalog.Search
import MissionText.Proofs.Catalog.WellFormed

namespace MissionText

/-! ## Texts at addresses -/

/-- The key at a place in a package. -/
def Package.key? (p : Package) (container id : String) : Option Key :=
  (p.container? container).bind (·.key? id)

/-- The key at a place in a project. -/
def Project.key? (p : Project) (package container id : String) : Option Key :=
  (p.package? package).bind (·.key? container id)

/-- The text of a key in a language. -/
def Key.text? (k : Key) (language : String) : Option String :=
  (k.translation? language).map Translation.text

/-- The text of a container at a place. -/
def Container.text? (c : Container) (id language : String) : Option String :=
  (c.key? id).bind (·.text? language)

/-- The text of a package at a place. -/
def Package.text? (p : Package) (container id language : String) : Option String :=
  (p.container? container).bind (·.text? id language)

/-- The text at an address. -/
def Project.textAt (p : Project) (a : Address) : Option String :=
  (p.package? a.package).bind (·.text? a.container a.key a.language)

theorem Project.textAt_eq_key? (p : Project) (a : Address) :
    p.textAt a = (p.key? a.package a.container a.key).bind (·.text? a.language) := by
  simp only [textAt, key?, Package.key?, Package.text?, Option.bind_assoc]
  rfl

theorem Project.textAt_eq_translation? (p : Project) (a : Address) :
    p.textAt a = (p.translation? a).map Translation.text := by
  simp only [textAt, Package.text?, Container.text?, Key.text?, translation?,
    Package.translation?, Container.translation?, Option.map_bind, Function.comp_def]

theorem Project.translations_eq_key? (p : Project) (package container id : String) :
    p.translations package container id =
      ((p.key? package container id).map Key.translations).getD [] := by
  unfold translations key?
  rcases p.package? package with _ | g
  · rfl
  · simp only [Option.map_some, Option.getD_some, Option.bind_some, Package.translations,
      Package.key?]
    rcases g.container? container with _ | c
    · rfl
    · rfl

/-- Two addresses are those of one key. -/
def Address.sameKey (a b : Address) : Bool :=
  sameFolded a.package b.package && (sameFolded a.container b.container && sameFolded a.key b.key)

/-- Two addresses are the same. -/
def Address.same (a b : Address) : Bool :=
  sameFolded a.package b.package &&
    (sameFolded a.container b.container &&
      (sameFolded a.key b.key && sameFolded a.language b.language))

theorem Address.same_eq (a b : Address) :
    a.same b = (a.sameKey b && sameFolded a.language b.language) := by
  simp only [same, sameKey, Bool.and_assoc]

theorem Address.same_comm (a b : Address) : a.same b = b.same a := by
  simp only [same, sameFolded_comm b.package, sameFolded_comm b.container, sameFolded_comm b.key,
    sameFolded_comm b.language]

theorem Project.textAt_congr (p : Project) {a b : Address} (h : a.same b = true) :
    p.textAt a = p.textAt b := by
  simp only [Address.same, Bool.and_eq_true] at h
  obtain ⟨hp, hc, hk, hl⟩ := h
  simp only [textAt, Package.text?, Container.text?, Key.text?, package?, Package.container?,
    Container.key?, Key.translation?, Siblings.find?_congr hp, Siblings.find?_congr hc,
    Siblings.find?_congr hk, Siblings.find?_congr hl]

/-! ## Keys at places

A place is an address without regard to its language. -/

/-- The address of a found key, in the language of source texts. -/
def KeyMatch.place (m : KeyMatch) : Address := ⟨m.package, m.container, m.key.id, originalTag⟩

@[simp] theorem KeyMatch.key_place (m : KeyMatch) : m.place.key = m.key.id := rfl

/-- The key at a place in a package. -/
def Package.locate? (g : Package) (container id : String) : Option KeyMatch :=
  (g.container? container).bind fun c => (c.key? id).map fun k => ⟨g.name, c.name, k⟩

/-- The key at a place. -/
def Project.locate? (p : Project) (a : Address) : Option KeyMatch :=
  (p.package? a.package).bind (·.locate? a.container a.key)

theorem Address.key_of_sameKey {a b : Address} (h : a.sameKey b = true) :
    sameFolded a.key b.key = true := by
  simp only [sameKey, Bool.and_eq_true] at h
  exact h.2.2

theorem Project.locate?_congr (p : Project) {a b : Address} (h : a.sameKey b = true) :
    p.locate? a = p.locate? b := by
  simp only [Address.sameKey, Bool.and_eq_true] at h
  obtain ⟨hp, hc, hk⟩ := h
  simp only [locate?, package?, Package.locate?, Package.container?, Container.key?,
    Siblings.find?_congr hp, Siblings.find?_congr hc, Siblings.find?_congr hk]

theorem Project.key?_eq_locate? (p : Project) (a : Address) :
    p.key? a.package a.container a.key = (p.locate? a).map KeyMatch.key := by
  unfold key? locate? Package.key? Package.locate?
  rcases p.package? a.package with _ | g
  · rfl
  · simp only [Option.bind_some]
    rcases g.container? a.container with _ | c
    · rfl
    · simp only [Option.bind_some, Option.map_map]
      exact Option.map_id'.symm

theorem Project.translation?_eq_locate? (p : Project) (a : Address) :
    p.translation? a = (p.locate? a).bind (·.key.translation? a.language) := by
  have hkey : (p.locate? a).bind (·.key.translation? a.language) =
      (p.key? a.package a.container a.key).bind (·.translation? a.language) := by
    rw [key?_eq_locate?, Option.bind_map]
    rfl
  rw [hkey]
  simp only [translation?, Package.translation?, Container.translation?, key?, Package.key?,
    Option.bind_assoc]

theorem Project.textAt_eq_locate? (p : Project) (a : Address) :
    p.textAt a = (p.locate? a).bind (·.key.text? a.language) := by
  rw [textAt_eq_key?, key?_eq_locate?, Option.bind_map]
  rfl

/-! ## One write -/

/-- What is at a place after a translation is written to it: the tag that is there
    keeps its spelling, and the empty text deletes. -/
def overwrite (old : Option Translation) (t : Translation) : Option Translation :=
  if t.text.isEmpty then none else some ⟨(old.map Translation.language).getD t.language, t.text⟩

theorem map_text_overwrite (old : Option Translation) (t : Translation) :
    (overwrite old t).map Translation.text = if t.text.isEmpty then none else some t.text := by
  unfold overwrite
  split_ifs
  · rfl
  · rfl

theorem Key.translation?_set {k : Key} (h : k.WellFormed) (language text m : String) :
    (k.set language text).translation? m =
      if sameFolded language m then overwrite (k.translation? m) ⟨language, text⟩
      else k.translation? m := by
  have hnew : Named.name (⟨language, ""⟩ : Translation) = language := rfl
  have hfind := Siblings.find?_edit (·.text.isEmpty) h.distinct hnew
    (f := fun t => { t with text := text }) (fun _ => rfl) m
  unfold translation?
  rw [translations_set, hfind]
  split_ifs with hm
  · rw [Siblings.edited, Siblings.find?_congr hm]
    rcases Siblings.find? m k.translations with _ | t
    · rfl
    · rfl
  · rfl

theorem Key.translation?_of_isEmpty {k : Key} (h : k.isEmpty = true) (language : String) :
    k.translation? language = none := by
  rw [isEmpty, List.isEmpty_iff] at h
  rw [translation?, h]
  rfl

theorem Container.translation?_of_isEmpty {c : Container} (h : c.isEmpty = true)
    (id language : String) : c.translation? id language = none := by
  rw [isEmpty, List.isEmpty_iff] at h
  rw [translation?, key?, h]
  rfl

theorem Package.translation?_of_isEmpty {p : Package} (h : p.isEmpty = true)
    (container id language : String) : p.translation? container id language = none := by
  rw [isEmpty, List.isEmpty_iff] at h
  rw [translation?, container?, h]
  rfl

section Write

variable (a : Address) (text : String)

theorem Container.translation?_set {c : Container} (h : c.WellFormed) (id language : String) :
    (c.set a.key a.language text).translation? id language =
      if sameFolded a.key id && sameFolded a.language language then
        overwrite (c.translation? id language) ⟨a.language, text⟩
      else c.translation? id language := by
  rw [translation?, key?, keys_set]
  refine Siblings.WellFormed.find?_edit_bind (u := (overwrite · ⟨a.language, text⟩)) h rfl ?_
    (Key.wellFormed_new a.key) rfl ?_ ?_ id
  · intro k
    rfl
  · intro k hk
    exact Key.translation?_of_isEmpty hk language
  · intro k hk
    exact Key.translation?_set hk a.language text language

theorem Package.translation?_set {p : Package} (h : p.WellFormed)
    (container id language : String) :
    (p.set a.container a.key a.language text).translation? container id language =
      if sameFolded a.container container &&
          (sameFolded a.key id && sameFolded a.language language) then
        overwrite (p.translation? container id language) ⟨a.language, text⟩
      else p.translation? container id language := by
  rw [translation?, container?, containers_set]
  refine Siblings.WellFormed.find?_edit_bind (u := (overwrite · ⟨a.language, text⟩)) h rfl ?_
    (Container.wellFormed_new a.container) rfl ?_ ?_ container
  · intro c
    rfl
  · intro c hc
    exact Container.translation?_of_isEmpty hc id language
  · intro c hc
    exact Container.translation?_set a text hc id language

/-- **A write changes the translation at its address and no other one.** -/
theorem Project.translation?_set {p : Project} (h : p.WellFormed) (b : Address) :
    (p.set a text).translation? b =
      if a.same b then overwrite (p.translation? b) ⟨a.language, text⟩ else p.translation? b := by
  rw [translation?, package?, packages_set]
  refine Siblings.WellFormed.find?_edit_bind (u := (overwrite · ⟨a.language, text⟩)) h rfl ?_
    (Package.wellFormed_new a.package) rfl ?_ ?_ b.package
  · intro g
    rfl
  · intro g hg
    exact Package.translation?_of_isEmpty hg b.container b.key b.language
  · intro g hg
    exact Package.translation?_set a text hg b.container b.key b.language

/-- **A write changes the text at its address and no other one.** -/
theorem Project.textAt_set {p : Project} (h : p.WellFormed) (b : Address) :
    (p.set a text).textAt b =
      if a.same b then (if text.isEmpty then none else some text) else p.textAt b := by
  rw [textAt_eq_translation?, translation?_set a text h, textAt_eq_translation?]
  split_ifs with hsame htext
  · rw [map_text_overwrite, if_pos htext]
  · rw [map_text_overwrite, if_neg htext]
  · rfl

end Write

/-- A text that is dropped if it is empty. -/
theorem filter_ne_empty (text : String) :
    (some text).filter (· ≠ "") = if text = "" then none else some text := by
  rw [Option.filter_some]
  by_cases htext : text = ""
  · simp [htext]
  · simp [htext]

/-! ## Many writes -/

/-- What is written to an address, in order. -/
def writesTo (a : Address) (ws : List (Address × String)) : List Translation :=
  (ws.filter (·.1.same a)).map fun w => ⟨w.1.language, w.2⟩

theorem mem_writesTo {a : Address} {ws : List (Address × String)} {t : Translation} :
    t ∈ writesTo a ws ↔ ∃ w ∈ ws, w.1.same a = true ∧ ⟨w.1.language, w.2⟩ = t := by
  simp only [writesTo, List.mem_map, List.mem_filter, and_assoc]

theorem writesTo_eq_nil_iff {a : Address} {ws : List (Address × String)} :
    writesTo a ws = [] ↔ ∀ w ∈ ws, w.1.same a = false := by
  simp only [writesTo, List.map_eq_nil_iff, List.filter_eq_nil_iff, Bool.not_eq_true]

theorem writesTo_append (a : Address) (vs ws : List (Address × String)) :
    writesTo a (vs ++ ws) = writesTo a vs ++ writesTo a ws := by
  simp only [writesTo, List.filter_append, List.map_append]

theorem writesTo_flatMap {α : Type} (a : Address) (f : α → List (Address × String))
    (xs : List α) : writesTo a (xs.flatMap f) = xs.flatMap fun x => writesTo a (f x) := by
  simp only [writesTo, List.filter_flatMap, List.map_flatMap]

/-- What texts of one key write to an address are those in its language. -/
theorem writesTo_translations (package container id : String) (ts : List Translation)
    (a : Address) :
    writesTo a (ts.map fun t => (⟨package, container, id, t.language⟩, t.text)) =
      if Address.sameKey ⟨package, container, id, a.language⟩ a then
        ts.filter (sameFolded ·.language a.language)
      else [] := by
  have hsame (t : Translation) : Address.same ⟨package, container, id, t.language⟩ a =
      (Address.sameKey ⟨package, container, id, a.language⟩ a &&
        sameFolded t.language a.language) := Address.same_eq _ _
  rw [writesTo, List.filter_map, List.map_map]
  simp only [Function.comp_def, hsame, List.map_id']
  split_ifs with hkey
  · simp only [hkey, Bool.true_and]
  · simp only [Bool.eq_false_iff.2 hkey, Bool.false_and]
    exact List.filter_eq_nil_iff.2 fun _ _ => Bool.false_ne_true

/-- **The translation after writes** is the old one after those to its address. -/
theorem Project.translation?_setAll {p : Project} (h : p.WellFormed)
    (ws : List (Address × String)) (a : Address) :
    (p.setAll ws).translation? a = (writesTo a ws).foldl overwrite (p.translation? a) := by
  induction ws generalizing p with
  | nil => rfl
  | cons w ws ih =>
    rw [setAll_cons, ih (h.set w.1 w.2), translation?_set w.1 w.2 h]
    by_cases hsame : w.1.same a = true
    · simp [writesTo, hsame]
    · simp [writesTo, hsame]

/-- **The last write to an address counts.** -/
theorem Project.textAt_setAll {p : Project} (h : p.WellFormed) (ws : List (Address × String))
    (a : Address) :
    (p.setAll ws).textAt a =
      match (writesTo a ws).getLast? with
      | none => p.textAt a
      | some t => if t.text.isEmpty then none else some t.text := by
  rw [textAt_eq_translation?, translation?_setAll h, textAt_eq_translation?]
  rcases (writesTo a ws).eq_nil_or_concat with hnil | ⟨ts, t, hlast⟩
  · rw [hnil]
    rfl
  · rw [hlast, List.concat_eq_append, List.foldl_append, List.foldl_cons, List.foldl_nil,
      map_text_overwrite, List.getLast?_concat]

theorem Project.textAt_setAll_of_not_same {p : Project} (h : p.WellFormed) {a : Address}
    {ws : List (Address × String)} (hws : ∀ w ∈ ws, w.1.same a = false) :
    (p.setAll ws).textAt a = p.textAt a := by
  rw [textAt_setAll h, writesTo_eq_nil_iff.2 hws]
  rfl

/-- Writes to an address are none, or the last of them is one of the writes. -/
theorem getLast?_writesTo (a : Address) (ws : List (Address × String)) :
    ((writesTo a ws).getLast? = none ∧ ∀ w ∈ ws, w.1.same a = false) ∨
      ∃ w ∈ ws, w.1.same a = true ∧
        (writesTo a ws).getLast? = some ⟨w.1.language, w.2⟩ := by
  rcases hlast : (writesTo a ws).getLast? with _ | t
  · exact .inl ⟨rfl, writesTo_eq_nil_iff.1 (List.getLast?_eq_none_iff.1 hlast)⟩
  · obtain ⟨w, hw, hsame, rfl⟩ := mem_writesTo.1 (List.mem_of_getLast? hlast)
    exact .inr ⟨w, hw, hsame, rfl⟩

theorem Project.isSome_textAt_setAll {p : Project} (h : p.WellFormed) {a : Address}
    {ws : List (Address × String)} (hws : ∀ w ∈ ws, w.2 ≠ "") :
    ((p.setAll ws).textAt a).isSome = true ↔
      (p.textAt a).isSome = true ∨ ∃ w ∈ ws, w.1.same a = true := by
  rw [textAt_setAll h]
  rcases getLast?_writesTo a ws with ⟨hlast, hnone⟩ | ⟨v, hv, hsame, hlast⟩
  · rw [hlast, or_iff_left]
    rintro ⟨w, hw, hsame⟩
    rw [hnone w hw] at hsame
    cases hsame
  · rw [hlast]
    have htext : v.2.isEmpty = false := String.isEmpty_eq_false_iff.2 (hws v hv)
    simp only [htext, Bool.false_eq_true, if_false, Option.isSome_some, true_iff]
    exact .inr ⟨v, hv, hsame⟩

/-- A text after writes was there before, or one of them wrote it. -/
theorem Project.exists_of_textAt_setAll {p : Project} (h : p.WellFormed) {a : Address}
    {text : String} {ws : List (Address × String)} (ht : (p.setAll ws).textAt a = some text) :
    p.textAt a = some text ∨ ∃ w ∈ ws, w.1.same a = true ∧ w.2 = text := by
  rw [textAt_setAll h] at ht
  rcases getLast?_writesTo a ws with ⟨hlast, -⟩ | ⟨v, hv, hsame, hlast⟩
  · rw [hlast] at ht
    exact .inl ht
  · rw [hlast] at ht
    dsimp only at ht
    split_ifs at ht
    exact .inr ⟨v, hv, hsame, Option.some.inj ht⟩

/-! ## Well-formed keys -/

theorem Key.WellFormed.text_ne_empty {k : Key} (h : k.WellFormed) {t : Translation}
    (ht : t ∈ k.translations) : t.text ≠ "" :=
  String.isEmpty_eq_false_iff.1 (h.full t ht)

theorem Key.WellFormed.text?_of_mem {k : Key} (h : k.WellFormed) {t : Translation}
    (ht : t ∈ k.translations) : k.text? t.language = some t.text := by
  have hfind : k.translation? t.language = some t := h.distinct.find?_of_mem ht
  rw [text?, hfind]
  rfl

theorem Key.exists_of_text? {k : Key} {language text : String}
    (h : k.text? language = some text) :
    ∃ t ∈ k.translations, sameFolded t.language language = true ∧ t.text = text := by
  obtain ⟨t, ht, rfl⟩ := Option.map_eq_some_iff.1 h
  have hname := Siblings.name_of_find? ht
  exact ⟨t, Siblings.mem_of_find? ht, hname, rfl⟩

theorem Key.WellFormed.text?_of_same {k : Key} (h : k.WellFormed) {t : Translation}
    (ht : t ∈ k.translations) {language : String} (hl : sameFolded t.language language = true) :
    k.text? language = some t.text := by
  rw [← h.text?_of_mem ht]
  exact congrArg (Option.map Translation.text) (Siblings.find?_congr hl k.translations).symm

/-- **A key that is written** has its texts, and keeps those in other languages. -/
theorem Project.textAt_setAll_key {p : Project} (h : p.WellFormed) {k : Key}
    (hk : k.WellFormed) (package container id : String) (a : Address) :
    (p.setAll (k.translations.map fun t => (⟨package, container, id, t.language⟩, t.text))).textAt
        a =
      if Address.sameKey ⟨package, container, id, a.language⟩ a then
        (k.text? a.language).or (p.textAt a)
      else p.textAt a := by
  rw [textAt_setAll h, writesTo_translations]
  split_ifs
  · have hone : k.translations.filter (sameFolded ·.language a.language) =
        (k.translation? a.language).toList := hk.distinct.filter_eq_find? a.language
    rw [hone, Key.text?]
    rcases ht : k.translation? a.language with _ | t
    · rfl
    · have htext : ¬ t.text.isEmpty = true := by
        simpa using hk.text_ne_empty (Siblings.mem_of_find? ht)
      exact if_neg htext
  · rfl

theorem Project.WellFormed.key? {p : Project} (h : p.WellFormed) {package container id : String}
    {k : Key} (hk : p.key? package container id = some k) : k.WellFormed := by
  obtain ⟨g, hg, hk⟩ := Option.bind_eq_some_iff.1 hk
  obtain ⟨c, hc, hk⟩ := Option.bind_eq_some_iff.1 hk
  exact ((h.each g (Siblings.mem_of_find? hg)).each c (Siblings.mem_of_find? hc)).each k
    (Siblings.mem_of_find? hk)

/-! ## Nodes with texts -/

theorem Key.WellFormed.exists_text? {k : Key} (h : k.WellFormed) (hk : k.isEmpty = false) :
    ∃ language, (k.text? language).isSome = true := by
  obtain ⟨t, ht⟩ := List.exists_mem_of_ne_nil _ (List.isEmpty_eq_false_iff.1 hk)
  exact ⟨t.language, by rw [h.text?_of_mem ht]; rfl⟩

theorem Container.WellFormed.exists_text? {c : Container} (h : c.WellFormed)
    (hc : c.isEmpty = false) : ∃ id language, (c.text? id language).isSome = true := by
  obtain ⟨k, hk⟩ := List.exists_mem_of_ne_nil _ (List.isEmpty_eq_false_iff.1 hc)
  obtain ⟨language, htext⟩ := (h.each k hk).exists_text? (h.full k hk)
  have hfind : c.key? k.id = some k := h.distinct.find?_of_mem hk
  exact ⟨k.id, language, by rwa [text?, hfind]⟩

theorem Package.WellFormed.exists_text? {g : Package} (h : g.WellFormed)
    (hg : g.isEmpty = false) :
    ∃ container id language, (g.text? container id language).isSome = true := by
  obtain ⟨c, hc⟩ := List.exists_mem_of_ne_nil _ (List.isEmpty_eq_false_iff.1 hg)
  obtain ⟨id, language, htext⟩ := (h.each c hc).exists_text? (h.full c hc)
  have hfind : g.container? c.name = some c := h.distinct.find?_of_mem hc
  exact ⟨c.name, id, language, by rwa [text?, hfind]⟩

/-- A well-formed project that is not empty has a text. -/
theorem Project.WellFormed.exists_textAt {p : Project} (h : p.WellFormed)
    (hp : p.isEmpty = false) : ∃ a, (p.textAt a).isSome = true := by
  obtain ⟨g, hg⟩ := List.exists_mem_of_ne_nil _ (List.isEmpty_eq_false_iff.1 hp)
  obtain ⟨container, id, language, htext⟩ := (h.each g hg).exists_text? (h.full g hg)
  have hfind : p.package? g.name = some g := h.distinct.find?_of_mem hg
  exact ⟨⟨g.name, container, id, language⟩, by rwa [textAt, hfind]⟩

theorem Project.textAt_of_isEmpty {p : Project} (h : p.isEmpty = true) (a : Address) :
    p.textAt a = none := by
  rw [isEmpty, List.isEmpty_iff] at h
  rw [textAt, package?, h]
  rfl

/-- **A well-formed project is empty** if there is no text at any address. -/
theorem Project.WellFormed.isEmpty_iff_textAt {p : Project} (h : p.WellFormed) :
    p.isEmpty = true ↔ ∀ a, p.textAt a = none := by
  constructor
  · exact textAt_of_isEmpty
  · intro hnone
    by_contra hp
    obtain ⟨a, ha⟩ := h.exists_textAt (Bool.eq_false_iff.2 hp)
    rw [hnone a] at ha
    cases ha

/-! ## Search by id -/

theorem Project.WellFormed.locate?_of_mem {p : Project} (h : p.WellFormed) {g : Package}
    (hg : g ∈ p.packages) {c : Container} (hc : c ∈ g.containers) {k : Key} (hk : k ∈ c.keys) :
    p.locate? ⟨g.name, c.name, k.id, originalTag⟩ = some ⟨g.name, c.name, k⟩ := by
  have hpackage : p.package? g.name = some g := h.distinct.find?_of_mem hg
  have hcontainer : g.container? c.name = some c := (h.each g hg).distinct.find?_of_mem hc
  have hkey : c.key? k.id = some k := ((h.each g hg).each c hc).distinct.find?_of_mem hk
  rw [locate?, hpackage, Option.bind_some, Package.locate?, hcontainer, Option.bind_some, hkey]
  rfl

theorem Project.findKey?_congr (p : Project) {id id' : String} (h : sameFolded id id' = true) :
    p.findKey? id = p.findKey? id' := by
  simp only [findKey?, Package.findKey?, Container.key?, Siblings.find?_congr h]

theorem Project.WellFormed.locate?_of_findKey? {p : Project} (h : p.WellFormed) {id : String}
    {m : KeyMatch} (hm : p.findKey? id = some m) :
    sameFolded m.key.id id = true ∧ p.locate? m.place = some m := by
  obtain ⟨g, hg, hm⟩ := List.exists_of_findSome?_eq_some hm
  obtain ⟨c, hc, hm⟩ := List.exists_of_findSome?_eq_some hm
  obtain ⟨k, hk, rfl⟩ := Option.map_eq_some_iff.1 hm
  have hname := Siblings.name_of_find? hk
  exact ⟨hname, h.locate?_of_mem hg hc (Siblings.mem_of_find? hk)⟩

theorem Project.locate?_of_findKey?_eq_none {p : Project} {a : Address}
    (h : p.findKey? a.key = none) : p.locate? a = none := by
  rcases hm : p.locate? a with _ | m
  · rfl
  · obtain ⟨g, hg, hm⟩ := Option.bind_eq_some_iff.1 hm
    obtain ⟨c, hc, hm⟩ := Option.bind_eq_some_iff.1 hm
    have hfind := List.findSome?_eq_none_iff.1 h g (Siblings.mem_of_find? hg)
    have hkey := List.findSome?_eq_none_iff.1 hfind c (Siblings.mem_of_find? hc)
    rw [hkey] at hm
    cases hm

/-- An id is unknown if there is no key of that id at any place. -/
theorem Project.WellFormed.findKey?_eq_none_iff {p : Project} (h : p.WellFormed) {id : String} :
    p.findKey? id = none ↔ ∀ a : Address, sameFolded a.key id = true → p.locate? a = none := by
  constructor
  · intro hnone a ha
    refine locate?_of_findKey?_eq_none ?_
    rw [p.findKey?_congr ha, hnone]
  · intro hall
    rcases hm : p.findKey? id with _ | m
    · rfl
    · obtain ⟨hid, hfound⟩ := h.locate?_of_findKey? hm
      rw [hall m.place hid] at hfound
      cases hfound

/-- There is no text under an unknown id. -/
theorem Project.findKey?_eq_none {p : Project} {id : String} (h : p.findKey? id = none)
    {a : Address} (ha : sameFolded id a.key = true) : p.textAt a = none := by
  have hkey : p.findKey? a.key = none := by rw [← p.findKey?_congr ha, h]
  rw [textAt_eq_locate?, locate?_of_findKey?_eq_none hkey]
  rfl

/-- What is found by its id is the key at the place that is found with it. -/
theorem Project.WellFormed.findKey?_eq_some {p : Project} (h : p.WellFormed) {id : String}
    {m : KeyMatch} (hm : p.findKey? id = some m) :
    sameFolded m.key.id id = true ∧ p.key? m.package m.container m.key.id = some m.key := by
  obtain ⟨hid, hplace⟩ := h.locate?_of_findKey? hm
  have hkey := p.key?_eq_locate? m.place
  rw [hplace] at hkey
  exact ⟨hid, hkey⟩

end MissionText
