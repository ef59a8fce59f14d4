/-
  A catalog after an exchange: exported for some languages, and imported again.

  * `Project.sources` is what is exported of a catalog: the keys that have a
    source text, with the containers and packages that have such keys.
  * `setAll_writes_ofProject`: the writes of an exported document are one edit
    for each of these keys, under the ids of their names.
  * `Project.exchanged` is what comes back.  `foldl_mergeInto_ofProject`: it is
    what the documents of some languages make, one after the other, where the
    first makes the keys and every other adds its language to them.
-/
import Mathlib.Data.List.Pairwise
import MissionText.Proofs.Catalog.Lookup
import MissionText.Proofs.Catalog.Rebuild
import MissionText.Proofs.Text.Space
import MissionText.Proofs.Xliff.Codec

namespace MissionText

open Xliff (idOfName spaced)

/-! ## What is exported -/

/-- The source text of a key, empty if it has none. -/
def Key.source (k : Key) : String := (k.text? originalTag).getD ""

/-- The container with the keys that have a source text. -/
def Container.sources (c : Container) : Container := ⟨c.name, c.keys.filter Key.isExportable⟩

/-- The package with the containers that have a key with a source text. -/
def Package.sources (g : Package) : Package :=
  ⟨g.name, (g.containers.filter Container.isExportable).map Container.sources⟩

/-- The packages that have a key with a source text. -/
def Project.sources (p : Project) : List Package :=
  (p.packages.filter Package.isExportable).map Package.sources

/-- A partial map that is defined on the members that a test selects. -/
theorem filterMap_eq_map_filter {α β : Type} {f : α → Option β} {test : α → Bool} {g : α → β}
    (h : ∀ x, f x = if test x then some (g x) else none) (xs : List α) :
    xs.filterMap f = (xs.filter test).map g := by
  induction xs with
  | nil => rfl
  | cons x xs ih =>
    rw [List.filterMap_cons, h]
    by_cases hx : test x = true
    · rw [if_pos hx, List.filter_cons_of_pos hx, List.map_cons, ih]
    · rw [if_neg hx, List.filter_cons_of_neg hx, ih]

theorem filter_eq_nil_iff_any {α : Type} {test : α → Bool} {xs : List α} :
    xs.filter test = [] ↔ ¬ xs.any test = true := by
  simp

namespace Xliff

/-- The segment of a key with a source text. -/
def Segment.ofKey (target : Option Language) (k : Key) : Segment :=
  ⟨idOfName k.id, k.source, target.bind fun l => k.text? l.tag⟩

/-- The unit of a container with source texts. -/
def Unit.ofContainer (target : Option Language) (c : Container) : Unit :=
  ⟨idOfName c.name, c.keys.map (Segment.ofKey target)⟩

/-- The group of a package with source texts. -/
def Group.ofPackage (target : Option Language) (g : Package) : Group :=
  ⟨idOfName g.name, g.containers.map (Unit.ofContainer target)⟩

variable (target : Option Language)

theorem Segment.ofKey?_eq (k : Key) :
    Segment.ofKey? target k = if k.isExportable then some (Segment.ofKey target k) else none := by
  unfold Segment.ofKey? Key.isExportable Segment.ofKey Key.source Key.text? Key.original?
  rcases k.translation? originalTag with _ | source
  · rfl
  · rcases target with _ | l
    · rfl
    · rfl

theorem Unit.ofContainer?_eq (c : Container) :
    Unit.ofContainer? target c =
      if c.isExportable then some (Unit.ofContainer target c.sources) else none := by
  have hsegments := filterMap_eq_map_filter (Segment.ofKey?_eq target) c.keys
  unfold Unit.ofContainer? Container.isExportable
  rw [hsegments]
  split_ifs with h
  · split
    · next hnil => exact absurd h (filter_eq_nil_iff_any.1 (List.map_eq_nil_iff.1 hnil))
    · rfl
  · rw [filter_eq_nil_iff_any.2 h]
    rfl

theorem Group.ofPackage?_eq (g : Package) :
    Group.ofPackage? target g =
      if g.isExportable then some (Group.ofPackage target g.sources) else none := by
  have hunits := filterMap_eq_map_filter (Unit.ofContainer?_eq target) g.containers
  unfold Group.ofPackage? Package.isExportable
  rw [hunits]
  split_ifs with h
  · split
    · next hnil => exact absurd h (filter_eq_nil_iff_any.1 (List.map_eq_nil_iff.1 hnil))
    · rw [Group.ofPackage, Package.sources, List.map_map]
      rfl
  · rw [filter_eq_nil_iff_any.2 h]
    rfl

/-- **The groups of an exported document.** -/
theorem Document.groups_ofProject (p : Project) (source : Language) (version : Version) :
    (Document.ofProject p source target version).groups =
      p.sources.map (Group.ofPackage target) := by
  have hgroups := filterMap_eq_map_filter (Group.ofPackage?_eq target) p.packages
  rw [Project.sources, List.map_map]
  exact hgroups

end Xliff

/-! ## Keys with texts in several languages -/

theorem pairwise_tags :
    (originalTag :: Language.all.map Language.tag).Pairwise fun l m => sameFolded l m = false := by
  decide +kernel

theorem Language.mem_all (l : Language) : l ∈ Language.all := by
  cases l <;> decide

theorem Language.sameFolded_originalTag (l : Language) : sameFolded originalTag l.tag = false :=
  (List.pairwise_cons.1 pairwise_tags).1 l.tag (List.mem_map_of_mem l.mem_all)

theorem Language.sameFolded_tag {l m : Language} (h : l ≠ m) : sameFolded l.tag m.tag = false := by
  have hpairwise := List.pairwise_map.1 (List.pairwise_cons.1 pairwise_tags).2
  have : Std.Symm fun l m : Language => sameFolded l.tag m.tag = false := by
    refine ⟨fun l m h => ?_⟩
    rw [sameFolded_comm]
    exact h
  exact hpairwise.forall l.mem_all m.mem_all h

/-- The texts that a document with a target language sets of a key. -/
def Key.exchange (l : Language) (k x : Key) : Key :=
  (x.set originalTag k.source).set l.tag ((k.text? l.tag).getD "")

theorem Key.id_exchange (l : Language) (k x : Key) : (k.exchange l x).id = x.id := rfl

/-- The source text stays when another text is set, or deleted. -/
theorem Key.isEmpty_set_set {source : String} (h : source ≠ "") (k : Key) (l : Language)
    (text : String) : ((k.set originalTag source).set l.tag text).isEmpty = false := by
  have hname : Named.name (⟨originalTag, ""⟩ : Translation) = originalTag := rfl
  obtain ⟨y, hy, hsame⟩ : ∃ y ∈ (k.set originalTag source).translations,
      sameFolded (Named.name y) originalTag = true := by
    rw [translations_set]
    refine Siblings.exists_mem_edit hname ?_ ?_ k.translations
    · intro t
      rfl
    · intro t
      exact String.isEmpty_eq_false_iff.2 h
  have hother : sameFolded (Named.name y) l.tag = false := by
    rw [sameFolded_left hsame, l.sameFolded_originalTag]
  rw [isEmpty, List.isEmpty_eq_false_iff, translations_set, translations_set]
  exact List.ne_nil_of_mem (Siblings.mem_edit_of_not_same hy hother)

/-- The key as it comes back: under the id of its name, with the source text and
    the texts in some languages. -/
def Key.exchanged (ls : List Language) (k : Key) : Key :=
  ⟨idOfName k.id, ⟨originalTag, k.source⟩ ::
    ls.filterMap fun l => (k.text? l.tag).map fun text => ⟨l.tag, text⟩⟩

theorem Key.id_exchanged (ls : List Language) (k : Key) : (k.exchanged ls).id = idOfName k.id := rfl

theorem Key.set_source_new {k : Key} (h : k.source ≠ "") :
    (Key.new (idOfName k.id)).set originalTag k.source = k.exchanged [] := by
  have hedit : Siblings.edit originalTag (⟨originalTag, ""⟩ : Translation) (·.text.isEmpty)
      (fun t => { t with text := k.source }) [] = [⟨originalTag, k.source⟩] :=
    Siblings.edit_of_missing (List.forall_mem_nil _) (String.isEmpty_eq_false_iff.2 h)
  exact congrArg (Key.mk (idOfName k.id)) hedit

theorem Key.set_source_exchanged {k : Key} (h : k.source ≠ "") (ls : List Language) :
    (k.exchanged ls).set originalTag k.source = k.exchanged ls := by
  have hedit : Siblings.edit originalTag (⟨originalTag, ""⟩ : Translation) (·.text.isEmpty)
      (fun t => { t with text := k.source }) ([] ++ (k.exchanged ls).translations) =
        [] ++ (k.exchanged ls).translations :=
    Siblings.edit_append_cons _ (List.forall_mem_nil _) (sameFolded_refl originalTag)
      (String.isEmpty_eq_false_iff.2 h)
  exact congrArg (Key.mk (idOfName k.id)) hedit

/-- A text in one more language is put last, if there is one. -/
theorem Key.set_target_exchanged {k : Key} (hk : k.WellFormed) {ls : List Language} {l : Language}
    (hl : l ∉ ls) :
    (k.exchanged ls).set l.tag ((k.text? l.tag).getD "") = k.exchanged (ls ++ [l]) := by
  have hmissing : ∀ t ∈ (k.exchanged ls).translations, sameFolded (Named.name t) l.tag = false := by
    intro t ht
    rcases List.mem_cons.1 ht with rfl | ht
    · exact l.sameFolded_originalTag
    · obtain ⟨m, hm, hmap⟩ := List.mem_filterMap.1 ht
      obtain ⟨text, -, rfl⟩ := Option.map_eq_some_iff.1 hmap
      exact Language.sameFolded_tag fun heq => hl (heq ▸ hm)
  refine congrArg (Key.mk (idOfName k.id)) ?_
  rcases htext : k.text? l.tag with _ | text
  · have hedit : Siblings.edit l.tag (⟨l.tag, ""⟩ : Translation) (·.text.isEmpty)
        (fun t => { t with text := "" }) (k.exchanged ls).translations =
          (k.exchanged ls).translations :=
      Siblings.edit_of_missing_void hmissing rfl
    refine hedit.trans ?_
    rw [exchanged, List.filterMap_append]
    simp [htext]
  · obtain ⟨t, ht, -, rfl⟩ := Key.exists_of_text? htext
    have hne : t.text.isEmpty = false := String.isEmpty_eq_false_iff.2 (hk.text_ne_empty ht)
    have hedit : Siblings.edit l.tag (⟨l.tag, ""⟩ : Translation) (·.text.isEmpty)
        (fun u => { u with text := t.text }) (k.exchanged ls).translations =
          (k.exchanged ls).translations ++ [⟨l.tag, t.text⟩] :=
      Siblings.edit_of_missing hmissing hne
    refine hedit.trans ?_
    rw [exchanged, List.filterMap_append]
    simp [htext]

theorem Key.exchange_new {k : Key} (hk : k.WellFormed) (h : k.source ≠ "") (l : Language) :
    k.exchange l (.new (idOfName k.id)) = k.exchanged [l] := by
  rw [exchange, set_source_new h, set_target_exchanged hk List.not_mem_nil, List.nil_append]

theorem Key.exchange_exchanged {k : Key} (hk : k.WellFormed) (h : k.source ≠ "")
    {ls : List Language} {l : Language} (hl : l ∉ ls) :
    k.exchange l (k.exchanged ls) = k.exchanged (ls ++ [l]) := by
  rw [exchange, set_source_exchanged h, set_target_exchanged hk hl]

/-! ## Merging one document -/

section

variable {p : Project}

/-- The keys that are exported are well-formed and have a source text. -/
theorem Project.WellFormed.source (h : p.WellFormed) {g : Package} (hg : g ∈ p.sources)
    {c : Container} (hc : c ∈ g.containers) {k : Key} (hk : k ∈ c.keys) :
    k.WellFormed ∧ k.source ≠ "" := by
  obtain ⟨g, hg', rfl⟩ := List.mem_map.1 hg
  obtain ⟨c, hc', rfl⟩ := List.mem_map.1 hc
  obtain ⟨hk, hexport⟩ := List.mem_filter.1 hk
  have hwell : k.WellFormed :=
    ((h.each g (List.mem_filter.1 hg').1).each c (List.mem_filter.1 hc').1).each k hk
  refine ⟨hwell, ?_⟩
  obtain ⟨t, ht⟩ := Option.isSome_iff_exists.1 hexport
  have hsource : k.source = t.text := by
    unfold Key.original? at ht
    rw [Key.source, Key.text?, ht]
    rfl
  rw [hsource]
  exact hwell.text_ne_empty (Siblings.mem_of_find? ht)

theorem Project.WellFormed.editable_sources (h : p.WellFormed) (l : Language) :
    ∀ g ∈ p.sources, g.Editable (Key.exchange l) := by
  intro g hg
  obtain ⟨g, hexported, rfl⟩ := List.mem_map.1 hg
  refine ⟨?_, ?_, ?_⟩
  · obtain ⟨c, hc, hexport⟩ := List.any_eq_true.1 (List.mem_filter.1 hexported).2
    exact List.ne_nil_of_mem (List.mem_map_of_mem (List.mem_filter.2 ⟨hc, hexport⟩))
  · intro c hc
    obtain ⟨c, hexported, rfl⟩ := List.mem_map.1 hc
    obtain ⟨k, hk, hexport⟩ := List.any_eq_true.1 (List.mem_filter.1 hexported).2
    exact List.ne_nil_of_mem (List.mem_filter.2 ⟨hk, hexport⟩)
  · intro c hc k hk x
    exact Key.isEmpty_set_set (h.source hg hc hk).2 x l _

theorem distinctUnder_sources {rename : String → String} (h : DistinctUnder rename p.packages) :
    DistinctUnder rename p.sources := by
  obtain ⟨hpackages, heach⟩ := h
  refine ⟨List.pairwise_map.2 (hpackages.filter _), fun g hg => ?_⟩
  obtain ⟨g, hexported, rfl⟩ := List.mem_map.1 hg
  obtain ⟨hcontainers, heach⟩ := heach g (List.mem_filter.1 hexported).1
  refine ⟨List.pairwise_map.2 (hcontainers.filter _), fun c hc => ?_⟩
  obtain ⟨c, hexported, rfl⟩ := List.mem_map.1 hc
  exact (heach c (List.mem_filter.1 hexported).1).filter _

variable (source : Language) (version : Xliff.Version)

/-- **The writes of an exported document are one edit for each key.** -/
theorem setAll_writes_ofProject (h : p.WellFormed) (l : Language) (q : Project) :
    q.setAll (Xliff.Document.ofProject p source (some l) version).writes =
      q.editAll idOfName (Key.exchange l) p.sources := by
  have hkey (q : Project) {g : Package} (hg : g ∈ p.sources) {c : Container}
      (hc : c ∈ g.containers) {k : Key} (hk : k ∈ c.keys) :
      q.setAll (Xliff.Document.segmentWrites (some l) (idOfName g.name) (idOfName c.name)
        (Xliff.Segment.ofKey (some l) k)) =
      q.editKey (idOfName g.name) (idOfName c.name) (idOfName k.id) (k.exchange l) :=
    Project.editKey_editKey (f := (·.set originalTag k.source))
      (g := (·.set l.tag ((k.text? l.tag).getD ""))) (fun _ => rfl)
      (fun x => Key.isEmpty_set (h.source hg hc hk).2 x originalTag)
      (fun x => Key.isEmpty_set_set (h.source hg hc hk).2 x l _) q _ _ _
  rw [← Project.foldl_editKey (h.editable_sources l), Xliff.Document.writes,
    Xliff.Document.groups_ofProject, List.flatMap_map, Project.setAll, List.foldl_flatMap]
  refine List.foldl_ext _ _ _ fun q g hg => ?_
  rw [Xliff.Group.ofPackage, List.flatMap_map, List.foldl_flatMap]
  refine List.foldl_ext _ _ _ fun q c hc => ?_
  rw [Xliff.Unit.ofContainer, List.flatMap_map, List.foldl_flatMap]
  exact List.foldl_ext _ _ _ fun q k hk => hkey q hg hc hk

/-- **An exported document is read back**, if anything was exported. -/
theorem read_render_ofProject (p : Project) (l : Language) :
    Xliff.Document.read (utf8 (Xliff.Document.ofProject p source (some l) version).render) =
      if p.isExportable then .ok (Xliff.Document.ofProject p source (some l) version).filled
      else .error (.malformed .noGroups) := by
  have htarget : (Xliff.Document.ofProject p source (some l) version).target = some l := rfl
  have hgroups : (Xliff.Document.ofProject p source (some l) version).filled.groups =
      p.sources.map (Xliff.Group.ofPackage (some l)) :=
    Xliff.Document.groups_ofProject (some l) p source version
  have hexport : (p.sources.map (Xliff.Group.ofPackage (some l))).isEmpty = !p.isExportable := by
    rw [List.isEmpty_map, Project.sources, List.isEmpty_map, Project.isExportable,
      Bool.eq_iff_iff, List.isEmpty_iff, filter_eq_nil_iff_any, Bool.not_eq_true,
      Bool.not_eq_true']
  rw [Xliff.Document.read_render, Xliff.Document.outcome_of_target htarget, Xliff.withGroups,
    hgroups, hexport]
  rcases p.isExportable with _ | _
  · rfl
  · rfl

/-! ## Merging documents one after the other -/

/-- The name of a project as it comes back. -/
def exchangedName (name : String) : String :=
  if isBlank name then defaultProjectName else spaced (idOfName name)

/-- The catalog as it comes back with some languages: every key that has a source
    text, under the ids of its names and in its place. -/
def Project.exchanged (ls : List Language) (p : Project) : Project :=
  ⟨exchangedName p.name, p.sources.map (Package.image idOfName (Key.exchanged ls))⟩

theorem Xliff.Document.writes_filled (d : Xliff.Document) : d.filled.writes = d.writes := by
  unfold Xliff.Document.writes Xliff.Document.filled
  rfl

theorem projectName_ofProject (p : Project) (target : Option Language) :
    (Xliff.Document.ofProject p source target version).filled.projectName =
      exchangedName p.name := by
  have hblank : isBlank (idOfName p.name) = isBlank p.name := by
    rw [isBlank, idOfName, String.toList_ofList, Text.all_isSpace_joinWords, isBlank]
  have hid : (Xliff.Document.ofProject p source target version).projectId = idOfName p.name := rfl
  rw [Xliff.Document.projectName, Xliff.Document.filled, hid, hblank, exchangedName]
  by_cases h : isBlank p.name = true
  · have hdefault : isBlank Xliff.defaultProjectId = false := by decide
    have hspaced : spaced Xliff.defaultProjectId = defaultProjectName := by decide
    rw [if_pos h, if_pos h]
    dsimp only
    rw [hdefault, if_neg Bool.false_ne_true, hspaced]
  · rw [if_neg h, if_neg h]
    dsimp only
    rw [hblank, if_neg h]

theorem mergeInto_ofProject (h : p.WellFormed) (l : Language) (q : Project) :
    (Xliff.Document.ofProject p source (some l) version).filled.mergeInto q =
      Project.editAll idOfName (Key.exchange l) p.sources
        { q with name := exchangedName p.name } := by
  rw [Xliff.Document.mergeInto, projectName_ofProject, Xliff.Document.writes_filled]
  exact setAll_writes_ofProject source version h l _

/-- **The first document makes the keys.** -/
theorem mergeInto_ofProject_default (h : p.WellFormed) (hd : DistinctUnder idOfName p.packages)
    (l : Language) :
    (Xliff.Document.ofProject p source (some l) version).filled.mergeInto .default =
      p.exchanged [l] := by
  have hempty := Project.editAll_empty (fun k x => Key.id_exchange l k x) (h.editable_sources l)
    (distinctUnder_sources hd) (exchangedName p.name)
  have hnew : ({ Project.default with name := exchangedName p.name } : Project) =
      .new (exchangedName p.name) := rfl
  rw [mergeInto_ofProject source version h l, hnew, hempty, Project.exchanged]
  refine congrArg (Project.mk (exchangedName p.name)) ?_
  refine List.map_congr_left fun g hg => Package.image_congr _ fun c hc k hk => ?_
  obtain ⟨hwell, hsource⟩ := h.source hg hc hk
  exact Key.exchange_new hwell hsource l

/-- **Every other document adds its language.** -/
theorem mergeInto_ofProject_exchanged (h : p.WellFormed) (hd : DistinctUnder idOfName p.packages)
    {ls : List Language} {l : Language} (hl : l ∉ ls) :
    (Xliff.Document.ofProject p source (some l) version).filled.mergeInto (p.exchanged ls) =
      p.exchanged (ls ++ [l]) := by
  have himage := Project.editAll_image (fun k x => Key.id_exchange l k x) (Key.id_exchanged ls)
    (h.editable_sources l) (distinctUnder_sources hd) (exchangedName p.name)
  rw [mergeInto_ofProject source version h l]
  refine himage.trans (congrArg (Project.mk (exchangedName p.name)) ?_)
  refine List.map_congr_left fun g hg => Package.image_congr _ fun c hc k hk => ?_
  obtain ⟨hwell, hsource⟩ := h.source hg hc hk
  exact Key.exchange_exchanged hwell hsource hl

/-- **The documents of a catalog for some languages**, merged one after the other. -/
theorem foldl_mergeInto_ofProject (h : p.WellFormed) (hd : DistinctUnder idOfName p.packages)
    {ls : List Language} (hne : ls ≠ []) (hls : ls.Nodup) :
    ls.foldl (fun q l => (Xliff.Document.ofProject p source (some l) version).filled.mergeInto q)
      .default = p.exchanged ls := by
  have hrest (done ls : List Language) (hls : (done ++ ls).Nodup) :
      ls.foldl (fun q l => (Xliff.Document.ofProject p source (some l) version).filled.mergeInto q)
        (p.exchanged done) = p.exchanged (done ++ ls) := by
    induction ls generalizing done with
    | nil => rw [List.foldl_nil, List.append_nil]
    | cons l ls ih =>
      have hl : l ∉ done := fun hdone =>
        (List.nodup_append.1 hls).2.2 l hdone l List.mem_cons_self rfl
      have happend : done ++ l :: ls = done ++ [l] ++ ls := by
        rw [List.append_assoc, List.singleton_append]
      rw [List.foldl_cons, mergeInto_ofProject_exchanged source version h hd hl,
        ih (done ++ [l]) (happend ▸ hls), happend]
  obtain ⟨l, ls, rfl⟩ := List.exists_cons_of_ne_nil hne
  rw [List.foldl_cons, mergeInto_ofProject_default source version h hd l]
  exact hrest [l] ls hls

end

end MissionText
