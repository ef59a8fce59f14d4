/-
  Exporting a catalog, importing it, and exporting it again.

  * `idOfName_idOfName`: an id is its own id.  `idOfName_spaced_eq_iff`: an id that
    was made a name has the same id as before if it is tidy, which is to say that
    its underscores stand one by one between other characters (`IsTidy`).
  * `ofProject_exchanged`: the catalog that comes back from an export has the same
    export, but for the id of the project.
  * `ofProject_toProject_eq_iff`: hence an export is stable exactly if the id of the
    project is tidy.
-/
import Mathlib.Data.List.Chain
import MissionText.Proofs.Xliff.Exchange

namespace MissionText.Xliff

open Text (joinWords words)

/-! ## Ids -/

/-- **An id is tidy** if it has characters, and its underscores stand one by one between
    other ones. -/
structure IsTidy (id : String) : Prop where
  ne_nil : id.toList ≠ []
  start : id.toList.head? ≠ some '_'
  stop : id.toList.getLast? ≠ some '_'
  /-- No underscore is next to another one. -/
  single : id.toList.IsChain fun c d => c = '_' → d ≠ '_'

instance (id : String) : Decidable (IsTidy id) :=
  decidable_of_iff (id.toList ≠ [] ∧ id.toList.head? ≠ some '_' ∧
      id.toList.getLast? ≠ some '_' ∧ id.toList.IsChain fun c d => c = '_' → d ≠ '_')
    ⟨fun h => ⟨h.1, h.2.1, h.2.2.1, h.2.2.2⟩, fun h => ⟨h.ne_nil, h.start, h.stop, h.single⟩⟩

theorem isSpace_of_mem_words {cs w : List Char} (hw : w ∈ words cs) {c : Char} (hc : c ∈ w) :
    c ∈ cs ∧ isSpace c = false := by
  have hmem : c ∈ (words cs).flatten := List.mem_flatten.2 ⟨w, hw, hc⟩
  rw [Text.flatten_words, List.mem_filter] at hmem
  exact ⟨hmem.1, by simpa using hmem.2⟩

/-- The characters of joined words, other than the separator. -/
theorem mem_intercalate_iff {s c : Char} (hc : c ≠ s) (ws : List (List Char)) :
    c ∈ List.intercalate [s] ws ↔ ∃ w ∈ ws, c ∈ w := by
  induction ws with
  | nil => simp
  | cons w ws ih =>
    cases ws with
    | nil => simp
    | cons v ws =>
      rw [List.intercalate_cons_cons, List.mem_append, List.mem_append, ih, List.mem_singleton,
        or_iff_left hc]
      exact (List.exists_mem_cons_iff _ w (v :: ws)).symm

theorem isSpace_of_mem_joinWords {cs : List Char} {c : Char} (hc : c ∈ joinWords '_' cs) :
    isSpace c = false := by
  by_cases hunderscore : c = '_'
  · rw [hunderscore]
    decide
  · obtain ⟨w, hw, hc⟩ := (mem_intercalate_iff hunderscore _).1 hc
    exact (isSpace_of_mem_words hw hc).2

/-- **An id is its own id.** -/
theorem idOfName_idOfName (s : String) : idOfName (idOfName s) = idOfName s := by
  have hspace : ∀ c ∈ joinWords '_' s.toList, isSpace c = false := fun _ =>
    isSpace_of_mem_joinWords
  have hjoin : joinWords '_' (joinWords '_' s.toList) = joinWords '_' s.toList := by
    by_cases hnil : joinWords '_' s.toList = []
    · rw [hnil]
      rfl
    · rw [joinWords, Text.words_of_forall hnil hspace, List.intercalate_singleton]
  rw [idOfName, idOfName, String.toList_ofList, hjoin]

/-- Words that are joined by underscores are tidy if they have none of their own. -/
theorem isTidy_intercalate {ws : List (List Char)} (hne : ws ≠ [])
    (hws : ∀ w ∈ ws, w ≠ [] ∧ '_' ∉ w) : IsTidy (String.ofList (List.intercalate ['_'] ws)) := by
  have hchain {w : List Char} (hw : '_' ∉ w) : w.IsChain fun c d => c = '_' → d ≠ '_' := by
    refine (List.pairwise_of_forall_mem_list fun c hc d _ hcu => ?_).isChain
    exact absurd (hcu ▸ hc) hw
  induction ws with
  | nil => exact absurd rfl hne
  | cons w ws ih =>
    obtain ⟨⟨hwne, hw⟩, hws⟩ := List.forall_mem_cons.1 hws
    have hhead : w.head? ≠ some '_' := fun h => hw (List.mem_of_mem_head? h)
    have hlast : w.getLast? ≠ some '_' := fun h => hw (List.mem_of_getLast? h)
    cases ws with
    | nil =>
      rw [List.intercalate_singleton]
      constructor <;> rw [String.toList_ofList]
      case ne_nil => exact hwne
      case start => exact hhead
      case stop => exact hlast
      case single => exact hchain hw
    | cons v ws =>
      obtain ⟨hrne, hrstart, hrstop, hrsingle⟩ := ih (List.cons_ne_nil v ws) hws
      rw [String.toList_ofList] at hrne hrstart hrstop hrsingle
      rw [List.intercalate_cons_cons, List.append_assoc, List.singleton_append]
      constructor <;> rw [String.toList_ofList]
      case ne_nil => exact List.append_ne_nil_of_left_ne_nil hwne _
      case start => rwa [List.head?_append_of_ne_nil _ hwne]
      case stop =>
        rwa [List.getLast?_append_of_ne_nil _ (List.cons_ne_nil _ _),
          List.getLast?_cons_of_ne_nil hrne]
      case single =>
        refine List.isChain_append.2 ⟨hchain hw, List.isChain_cons.2 ⟨?_, hrsingle⟩, ?_⟩
        · rintro d hd - rfl
          exact hrstart hd
        · rintro c hc _ - rfl
          exact absurd hc hlast

/-- What stands between the underscores of a tidy id. -/
theorem exists_intercalate_of_isTidy {cs : List Char} (h : IsTidy (String.ofList cs)) :
    ∃ ws : List (List Char), ws ≠ [] ∧ (∀ w ∈ ws, w ≠ [] ∧ '_' ∉ w) ∧
      List.intercalate ['_'] ws = cs := by
  obtain ⟨hne, hstart, hstop, hsingle⟩ := h
  rw [String.toList_ofList] at hne hstart hstop hsingle
  have hcons {c : Char} {cs : List Char} (h : (c :: cs).head? ≠ some '_') : c ≠ '_' := by
    simpa using h
  induction cs using List.twoStepInduction with
  | nil => exact absurd rfl hne
  | singleton c =>
    have hc : '_' ∉ [c] := by simpa using (hcons hstart).symm
    refine ⟨[[c]], List.cons_ne_nil _ _, ?_, List.intercalate_singleton⟩
    exact List.forall_mem_cons.2 ⟨⟨List.cons_ne_nil c [], hc⟩, List.forall_mem_nil _⟩
  | cons_cons c d cs ih ih' =>
    have hc : c ≠ '_' := hcons hstart
    rw [List.getLast?_cons_cons] at hstop
    obtain ⟨-, hsingle⟩ := List.isChain_cons_cons.1 hsingle
    by_cases hd : d = '_'
    · -- The first word is over, and another one must follow.
      subst hd
      have hcs : cs ≠ [] := by
        rintro rfl
        exact hstop rfl
      rw [List.getLast?_cons_of_ne_nil hcs] at hstop
      obtain ⟨hfirst, hsingle⟩ := List.isChain_cons.1 hsingle
      obtain ⟨ws, hws, hwords, rfl⟩ := ih hcs (fun h => hfirst _ h rfl rfl) hstop hsingle
      refine ⟨[c] :: ws, List.cons_ne_nil _ _, List.forall_mem_cons.2 ⟨?_, hwords⟩, ?_⟩
      · exact ⟨List.cons_ne_nil c [], by simpa using hc.symm⟩
      · obtain ⟨w, ws, rfl⟩ := List.exists_cons_of_ne_nil hws
        rw [List.intercalate_cons_cons, List.append_assoc, List.singleton_append,
          List.singleton_append]
    · obtain ⟨ws, hws, hwords, hcs⟩ :=
        ih' d (List.cons_ne_nil d cs) (by simpa using hd) hstop hsingle
      obtain ⟨w, ws, rfl⟩ := List.exists_cons_of_ne_nil hws
      obtain ⟨⟨-, hw⟩, hwords⟩ := List.forall_mem_cons.1 hwords
      refine ⟨(c :: w) :: ws, List.cons_ne_nil _ _, List.forall_mem_cons.2 ⟨?_, hwords⟩, ?_⟩
      · refine ⟨List.cons_ne_nil c w, fun h => ?_⟩
        rcases List.mem_cons.1 h with h | h
        · exact hc h.symm
        · exact hw h
      · rw [← hcs]
        cases ws with
        | nil => rw [List.intercalate_singleton, List.intercalate_singleton]
        | cons v ws => rfl

/-- Words with underscores between them are words with spaces between them in a name. -/
theorem spaced_intercalate {ws : List (List Char)} (hws : ∀ w ∈ ws, '_' ∉ w) :
    spaced (String.ofList (List.intercalate ['_'] ws)) =
      String.ofList (List.intercalate [' '] ws) := by
  have hword {w : List Char} (hw : '_' ∉ w) : w.map (fun c => if c = '_' then ' ' else c) = w := by
    refine (List.map_congr_left fun c hc => if_neg ?_).trans w.map_id
    rintro rfl
    exact hw hc
  rw [spaced, String.toList_ofList]
  congr 1
  induction ws with
  | nil => rfl
  | cons w ws ih =>
    obtain ⟨hw, hws⟩ := List.forall_mem_cons.1 hws
    cases ws with
    | nil => rw [List.intercalate_singleton, List.intercalate_singleton, hword hw]
    | cons v ws =>
      rw [List.intercalate_cons_cons, List.map_append, ih hws, List.map_append, hword hw,
        List.intercalate_cons_cons]
      rfl

theorem underscore_notMem_spaced (id : String) : '_' ∉ (spaced id).toList := by
  rw [spaced, String.toList_ofList, List.mem_map]
  rintro ⟨c, -, hc⟩
  split_ifs at hc with hunderscore
  · exact absurd hc (by decide)
  · exact hunderscore hc

/-- The id of a name that has single spaces between its words. -/
theorem idOfName_intercalate {ws : List (List Char)} (hws : ∀ w ∈ ws, words w = [w]) :
    idOfName (String.ofList (List.intercalate [' '] ws)) =
      String.ofList (List.intercalate ['_'] ws) := by
  rw [idOfName, String.toList_ofList, joinWords, Text.words_intercalate, List.flatMap_congr hws]
  simp

/-- **An id that was made a name has the same id as before** if it is tidy. -/
theorem idOfName_spaced_eq_iff {id : String} (hne : id ≠ "")
    (hspace : ∀ c ∈ id.toList, isSpace c = false) : idOfName (spaced id) = id ↔ IsTidy id := by
  constructor
  · intro h
    have hwords : ∀ w ∈ words (spaced id).toList, w ≠ [] ∧ '_' ∉ w := fun w hw =>
      ⟨(Text.forall_mem_words _ w hw).1, fun hunderscore =>
        underscore_notMem_spaced id (isSpace_of_mem_words hw hunderscore).1⟩
    rw [← h, idOfName, joinWords]
    refine isTidy_intercalate (fun hnil => hne ?_) hwords
    rw [← h, idOfName, joinWords, hnil]
    rfl
  · intro h
    obtain ⟨ws, -, hws, hid⟩ : ∃ ws : List (List Char), ws ≠ [] ∧ (∀ w ∈ ws, w ≠ [] ∧ '_' ∉ w) ∧
        List.intercalate ['_'] ws = id.toList := by
      apply exists_intercalate_of_isTidy
      rwa [String.ofList_toList]
    have hwords : ∀ w ∈ ws, words w = [w] := by
      refine fun w hw => Text.words_of_forall (hws w hw).1 fun c hc => hspace c ?_
      have hunderscore : c ≠ '_' := by
        rintro rfl
        exact (hws w hw).2 hc
      rw [← hid]
      exact (mem_intercalate_iff hunderscore ws).2 ⟨w, hw, hc⟩
    obtain rfl : id = String.ofList (List.intercalate ['_'] ws) := by
      rw [hid, String.ofList_toList]
    rw [spaced_intercalate fun w hw => (hws w hw).2, idOfName_intercalate hwords]

/-- The id of a project as it comes back. -/
theorem idOfName_exchangedName_eq_iff (name : String) :
    idOfName (exchangedName name) = idOfName name ↔ IsTidy (idOfName name) := by
  have hspace : ∀ c ∈ (idOfName name).toList, isSpace c = false := by
    rw [idOfName, String.toList_ofList]
    exact fun c => isSpace_of_mem_joinWords
  rw [exchangedName]
  split_ifs with hblank
  · have hempty : idOfName name = "" := by
      rw [idOfName, joinWords, Text.words_eq_nil_iff.2 hblank]
      rfl
    rw [hempty]
    decide
  · refine idOfName_spaced_eq_iff (fun hempty => hblank ?_) hspace
    have hnil : joinWords '_' name.toList = [] := String.ofList_eq_empty_iff.1 hempty
    rw [isBlank, ← Text.all_isSpace_joinWords '_', hnil]
    rfl

/-! ## The export of what came back -/

variable (l : Language)

/-- The segment of a key is the same after an exchange. -/
theorem Segment.ofKey?_exchanged (k : Key) :
    Segment.ofKey? (some l) (k.exchanged [l]) = some (Segment.ofKey (some l) k) := by
  have hsource : (k.exchanged [l]).original? = some ⟨originalTag, k.source⟩ := by
    have hsame : sameFolded (Named.name (⟨originalTag, k.source⟩ : Translation)) originalTag =
      true := sameFolded_refl originalTag
    exact Siblings.find?_cons_of_same hsame _
  have htarget : ((k.exchanged [l]).translation? l.tag).map Translation.text = k.text? l.tag := by
    have hother : sameFolded (Named.name (⟨originalTag, k.source⟩ : Translation)) l.tag = false :=
      l.sameFolded_originalTag
    rw [Key.translation?, Key.exchanged, Siblings.find?_cons_of_not_same hother,
      List.filterMap_cons, List.filterMap_nil]
    rcases k.text? l.tag with _ | text
    · rfl
    · have hsame : sameFolded (Named.name (⟨l.tag, text⟩ : Translation)) l.tag = true :=
        sameFolded_refl l.tag
      exact congrArg (Option.map Translation.text) (Siblings.find?_cons_of_same hsame [])
  rw [ofKey?, hsource, Option.map_some, Option.bind_some, htarget, Key.id_exchanged,
    idOfName_idOfName]
  rfl

theorem Unit.ofContainer?_exchanged {c : Container} (hc : c.keys ≠ []) :
    Unit.ofContainer? (some l) (c.image idOfName (Key.exchanged [l])) =
      some (Unit.ofContainer (some l) c) := by
  have hsegments : (c.image idOfName (Key.exchanged [l])).keys.filterMap
      (Segment.ofKey? (some l)) = c.keys.map (Segment.ofKey (some l)) := by
    rw [Container.image, List.filterMap_map, ← List.filterMap_eq_map]
    exact List.filterMap_congr fun k _ => Segment.ofKey?_exchanged l k
  obtain ⟨k, ks, hkeys⟩ := List.exists_cons_of_ne_nil hc
  rw [ofContainer?, hsegments, ofContainer, Container.image, idOfName_idOfName, hkeys]
  rfl

theorem Group.ofPackage?_exchanged {g : Package} (hg : g.containers ≠ [])
    (hkeys : ∀ c ∈ g.containers, c.keys ≠ []) :
    Group.ofPackage? (some l) (g.image idOfName (Key.exchanged [l])) =
      some (Group.ofPackage (some l) g) := by
  have hunits : (g.image idOfName (Key.exchanged [l])).containers.filterMap
      (Unit.ofContainer? (some l)) = g.containers.map (Unit.ofContainer (some l)) := by
    rw [Package.image, List.filterMap_map, ← List.filterMap_eq_map]
    exact List.filterMap_congr fun c hc => Unit.ofContainer?_exchanged l (hkeys c hc)
  obtain ⟨c, cs, hcontainers⟩ := List.exists_cons_of_ne_nil hg
  rw [ofPackage?, hunits, ofPackage, Package.image, idOfName_idOfName, hcontainers]
  rfl

namespace Document

variable {p : Project} (source : Language) (version : Version)

/-- **The catalog that came back has the same export**, but for the id of the project. -/
theorem ofProject_exchanged (h : p.WellFormed) :
    ofProject (p.exchanged [l]) source (some l) version =
      { ofProject p source (some l) version with
        projectId := idOfName (exchangedName p.name) } := by
  have hgroups : (p.exchanged [l]).packages.filterMap (Group.ofPackage? (some l)) =
      (ofProject p source (some l) version).groups := by
    rw [groups_ofProject, Project.exchanged, List.filterMap_map, ← List.filterMap_eq_map]
    refine List.filterMap_congr fun g hg => ?_
    have heditable := h.editable_sources l g hg
    exact Group.ofPackage?_exchanged l heditable.containers heditable.keys
  rw [ofProject, hgroups]
  rfl

theorem update_projectId_eq_iff {d : Document} {id : String} :
    ({ d with projectId := id } : Document) = d ↔ id = d.projectId := by
  constructor
  · intro h
    exact congrArg projectId h
  · rintro rfl
    rfl

/-- A document of a catalog with source texts is read as it was, but for a blank id. -/
theorem readText_render_ofProject (hexport : p.isExportable = true) :
    readText (ofProject p source (some l) version).render =
      .ok (ofProject p source (some l) version).filled := by
  have hread := read_render_ofProject source version p l
  rwa [if_pos hexport, read, render, Xml.toUtf8_printDocument] at hread

theorem ofProject_toProject_filled (h : p.WellFormed) (hd : DistinctUnder idOfName p.packages) :
    ofProject (ofProject p source (some l) version).filled.toProject source (some l) version =
      { ofProject p source (some l) version with
        projectId := idOfName (exchangedName p.name) } := by
  rw [toProject, mergeInto_ofProject_default source version h hd l,
    ofProject_exchanged l source version h]

/-- **An export that was read back and is exported again** is the same but for the id
    of the project, and the id is the same exactly if its underscores stand one by
    one between other characters. -/
theorem ofProject_toProject_eq_iff (h : p.Reachable) (hd : DistinctUnder idOfName p.packages)
    (hexport : p.isExportable = true) :
    ∃ d, readText (ofProject p source (some l) version).render = .ok d ∧
      ofProject d.toProject source (some l) version =
        { ofProject p source (some l) version with projectId := idOfName d.projectName } ∧
      (ofProject d.toProject source (some l) version = ofProject p source (some l) version ↔
        IsTidy (ofProject p source (some l) version).projectId) := by
  have hread := readText_render_ofProject l source version hexport
  have hagain := ofProject_toProject_filled l source version h.wellFormed hd
  have hid : (ofProject p source (some l) version).projectId = idOfName p.name := rfl
  refine ⟨_, hread, ?_, ?_⟩
  · rw [hagain, projectName_ofProject]
  · rw [hagain, update_projectId_eq_iff, hid]
    exact idOfName_exchangedName_eq_iff p.name

/-- A project with spaces and underscores at all places of its names. -/
def underscored : Project :=
  ((Project.new " Old \t mission ").set ⟨"_Side  tasks_", "a __ b", " k__1 ", originalTag⟩
    "Hello").set ⟨"_side  tasks_", "A __ b", " K__1 ", "German"⟩ "Hallo"

theorem ofProject_toProject_underscored :
    (ofProject underscored .english (some .german) .v2_0).projectId = "Old_mission" ∧
      (ofProject underscored .english (some .german) .v2_0).groups =
        [⟨"_Side_tasks_", [⟨"a____b", [⟨"k__1", "Hello", some "Hallo"⟩]⟩]⟩] ∧
      ∃ d, readText (ofProject underscored .english (some .german) .v2_0).render = .ok d ∧
        ofProject d.toProject .english (some .german) .v2_0 =
          ofProject underscored .english (some .german) .v2_0 := by
  have hreachable : underscored.Reachable := ((Project.Reachable.new _).set _ _).set _ _
  have hdistinct : DistinctUnder idOfName underscored.packages := by
    unfold DistinctUnder Package.DistinctUnder Container.DistinctUnder Siblings.DistinctNames
    decide +kernel
  have htidy : IsTidy (ofProject underscored .english (some .german) .v2_0).projectId := by
    decide +kernel
  obtain ⟨d, hread, -, hiff⟩ := ofProject_toProject_eq_iff .german .english .v2_0
    hreachable hdistinct (by decide +kernel)
  exact ⟨by decide +kernel, by decide +kernel, d, hread, hiff.2 htidy⟩

/-- A project with two underscores in a row in its name. -/
def doubled : Project :=
  (Project.new "a__b").set ⟨"Main", "c", "k", originalTag⟩ "Hi"

/-- The name that comes back has two spaces, of which the id makes one underscore. -/
theorem ofProject_toProject_doubled_ne :
    doubled.Reachable ∧ DistinctUnder idOfName doubled.packages ∧ doubled.isExportable = true ∧
      (ofProject doubled .english (some .german) .v1_2).projectId ≠ "" ∧
      ∃ d, readText (ofProject doubled .english (some .german) .v1_2).render = .ok d ∧
        ofProject d.toProject .english (some .german) .v1_2 ≠
          ofProject doubled .english (some .german) .v1_2 := by
  have hreachable : doubled.Reachable := (Project.Reachable.new _).set _ _
  have hdistinct : DistinctUnder idOfName doubled.packages := by
    unfold DistinctUnder Package.DistinctUnder Container.DistinctUnder Siblings.DistinctNames
    decide +kernel
  have hexport : doubled.isExportable = true := by decide +kernel
  refine ⟨hreachable, hdistinct, hexport, by decide +kernel, _,
    readText_render_ofProject .german .english .v1_2 hexport, ?_⟩
  rw [ofProject_toProject_filled .german .english .v1_2 hreachable.wellFormed hdistinct, ne_eq,
    update_projectId_eq_iff]
  decide +kernel

end Document

end MissionText.Xliff
