/-
  The ids that an extraction can write.

  The key of a directive is a token, and tokens have characters; all other keys
  are copied from the reference.

  * `key_ne_empty_of_mem_scan`: the directives of a script name their keys.
  * `hasOnly_extractAll`: if all keys of the reference have ids, all keys of the
    output have.
-/
import MissionText.Command.Run
import MissionText.Proofs.Catalog.Names
import MissionText.Proofs.Script.Steps

namespace MissionText

/-! ## Directives -/

theorem ne_nil_of_spacedToken? {cs token rest : List Char}
    (h : spacedToken? cs = some (token, rest)) : token ≠ [] := by
  unfold spacedToken? at h
  rw [Option.bind_eq_bind, Option.bind_eq_some_iff] at h
  obtain ⟨cs', -, h⟩ := h
  dsimp only at h
  split_ifs at h with hempty
  obtain ⟨rfl, -⟩ := Prod.mk.inj (Option.some.inj h)
  intro hnil
  rw [hnil] at hempty
  exact hempty rfl

theorem Header.key_ne_nil {cs rest : List Char} {header : Header}
    (h : Header.read? cs = some (header, rest)) : header.key ≠ [] := by
  unfold Header.read? at h
  simp only [Option.bind_eq_bind, Option.bind_eq_some_iff] at h
  obtain ⟨_, -, ⟨package, _⟩, -, ⟨container, _⟩, -, ⟨key, _⟩, hkey, h⟩ := h
  obtain ⟨rfl, -⟩ := Prod.mk.inj (Option.some.inj h)
  exact ne_nil_of_spacedToken? hkey

theorem Header.key_directive_ne_empty {header : Header} (h : header.key ≠ []) (base text : String) :
    (header.directive base text).key ≠ "" := by
  rw [directive, ne_eq, String.ofList_eq_empty_iff]
  exact h

theorem exists_of_firstSuffix? {α : Type} {f : List Char → Option α} {cs : List Char} {a : α}
    (h : firstSuffix? f cs = some a) : ∃ suffix, f suffix = some a := by
  induction cs with
  | nil => exact ⟨[], h⟩
  | cons c cs ih =>
    rw [firstSuffix?] at h
    split at h
    · next b hb =>
      obtain rfl := Option.some.inj h
      exact ⟨c :: cs, hb⟩
    · exact ih h

theorem Directive.key_ne_empty_of_ofLine? {base : String} {line : List Char} {d : Directive}
    (h : Directive.ofLine? base line = some d) : d.key ≠ "" := by
  unfold ofLine? at h
  obtain ⟨⟨header, text⟩, hfound, rfl⟩ := Option.map_eq_some_iff.1 h
  obtain ⟨suffix, hshort⟩ := exists_of_firstSuffix? hfound
  unfold shortForm? at hshort
  split at hshort
  · simp only [Option.bind_eq_bind, Option.bind_eq_some_iff] at hshort
    obtain ⟨⟨header', rest⟩, hread, text', -, heq⟩ := hshort
    obtain ⟨rfl, -⟩ := Prod.mk.inj (Option.some.inj heq)
    exact Header.key_directive_ne_empty (Header.key_ne_nil hread) _ _
  · cases hshort

theorem Block.key_ne_empty_of_finish {base : String} {b : Block} {d : Directive}
    (h : b.finish base = some d) : d.key ≠ "" := by
  unfold finish at h
  obtain ⟨header, hfound, rfl⟩ := Option.map_eq_some_iff.1 h
  obtain ⟨suffix, hheader⟩ := exists_of_firstSuffix? hfound
  unfold header? at hheader
  split at hheader
  · obtain ⟨⟨header', rest⟩, hread, rfl⟩ := Option.map_eq_some_iff.1 hheader
    exact Header.key_directive_ne_empty (Header.key_ne_nil hread) _ _
  · cases hheader

theorem key_ne_empty_of_mem_scanFrom {base : String} {block : Option Block}
    {lines : List (List Char)} {d : Directive} (h : d ∈ scanFrom base block lines) :
    d.key ≠ "" := by
  have hfinish {b : Block} {ds : List Directive} (hds : d ∈ ds → d.key ≠ "")
      (h : d ∈ (b.finish base).toList ++ ds) : d.key ≠ "" := by
    rcases List.mem_append.1 h with h | h
    · exact Block.key_ne_empty_of_finish (Option.mem_toList.1 h)
    · exact hds h
  fun_induction scanFrom base block lines with
  | case1 => cases h
  | case2 line lines d' hline ih =>
    rcases List.mem_cons.1 h with rfl | h
    · exact Directive.key_ne_empty_of_ofLine? hline
    · exact ih h
  | case3 line lines hline hopens hcloses ih => exact hfinish ih h
  | case4 line lines hline hopens hcloses ih => exact ih h
  | case5 line lines hline hopens ih => exact ih h
  | case6 b line lines hcloses ih => exact hfinish ih h
  | case7 b line lines hcloses ih => exact ih h

/-- **The directives of a script name their keys.** -/
theorem key_ne_empty_of_mem_scan {base : String} {content : List Char} {d : Directive}
    (h : d ∈ scan base content) : d.key ≠ "" :=
  key_ne_empty_of_mem_scanFrom h

/-! ## Steps -/

theorem Project.mem_keys_of_findKey? {p : Project} {id : String} {m : KeyMatch}
    (h : p.findKey? id = some m) : m.key ∈ p.keys := by
  obtain ⟨g, hg, hfound⟩ := List.exists_of_findSome?_eq_some h
  obtain ⟨c, hc, hkey⟩ := List.exists_of_findSome?_eq_some hfound
  obtain ⟨k, hk, rfl⟩ := Option.map_eq_some_iff.1 hkey
  exact mem_keys.2 ⟨g, hg, c, hc, List.mem_of_find?_eq_some hk⟩

variable {P : String → Prop} {reference output : Project}

/-- **A step writes ids that a directive names** or that the reference has. -/
theorem Step.hasOnly_apply (href : reference.HasOnly P fun _ => True)
    (ho : output.HasOnly P fun _ => True) {s : Step} (hs : ∀ d, s = .save d → P d.key) :
    (s.apply reference output).HasOnly P fun _ => True := by
  cases s with
  | save d =>
    have hkey : P d.key := hs d rfl
    refine (ho.set hkey trivial d.text).setAll fun w hw => ?_
    obtain ⟨t, -, rfl⟩ := List.mem_map.1 hw
    exact ⟨hkey, trivial⟩
  | use u =>
    rw [apply, resolveOne]
    split
    · exact ho
    · split
      · exact ho
      · next m hm =>
        refine ho.setAll fun w hw => ?_
        obtain ⟨t, -, rfl⟩ := List.mem_map.1 hw
        exact ⟨(href m.key (Project.mem_keys_of_findKey? hm)).1, trivial⟩

theorem hasOnly_runSteps (href : reference.HasOnly P fun _ => True)
    (ho : output.HasOnly P fun _ => True) {steps : List Step}
    (hs : ∀ d, Step.save d ∈ steps → P d.key) :
    (runSteps reference steps output).HasOnly P fun _ => True := by
  induction steps generalizing output with
  | nil => exact ho
  | cons s steps ih =>
    refine ih (Step.hasOnly_apply href ho fun d hd => hs d ?_) fun d hd => hs d ?_
    · rw [hd]
      exact List.mem_cons_self
    · exact List.mem_cons_of_mem _ hd

theorem key_ne_empty_of_mem_stepsOf {script : String × String} {d : Directive}
    (h : Step.save d ∈ stepsOf script) : d.key ≠ "" := by
  rcases List.mem_append.1 h with h | h
  · obtain ⟨d', hd', heq⟩ := List.mem_map.1 h
    obtain rfl := Step.save.inj heq
    exact key_ne_empty_of_mem_scan hd'
  · obtain ⟨u, -, heq⟩ := List.mem_map.1 h
    cases heq

/-! ## Scripts -/

/-- **Scripts leave every key with an id**, if the reference has such keys only. -/
theorem hasOnly_extractAll (href : reference.HasOnly (· ≠ "") fun _ => True)
    (ho : output.HasOnly (· ≠ "") fun _ => True) (scripts : List (String × String)) :
    (extractAll reference scripts output).HasOnly (· ≠ "") fun _ => True := by
  rw [extractAll_eq_runSteps]
  refine hasOnly_runSteps href ho fun d hd => ?_
  obtain ⟨script, -, hd⟩ := List.mem_flatMap.1 hd
  exact key_ne_empty_of_mem_stepsOf hd

/-- The files of a run are scripts, apart from those that cannot be read. -/
theorem exists_extractFiles_eq (t : FileTree) (reference output : Project) (paths : List String) :
    ∃ scripts, (extractFiles t reference paths output).1 =
      extractAll reference scripts output := by
  induction paths generalizing output with
  | nil => exact ⟨[], rfl⟩
  | cons path paths ih =>
    rcases hcontent : t.readFile path with e | content
    · have hfile : extractFile t reference path output = .error e := by
        rw [extractFile, hcontent]
        rfl
      have hrun : (extractFiles t reference (path :: paths) output).1 =
          (extractFiles t reference paths output).1 := by
        simp only [extractFiles, hfile]
      rw [hrun]
      exact ih output
    · have hfile : extractFile t reference path output =
          .ok (extract reference (FilePath.baseName path) (scriptText content) output) := by
        rw [extractFile, hcontent]
        rfl
      have hrun : (extractFiles t reference (path :: paths) output).1 =
          (extractFiles t reference paths
            (extract reference (FilePath.baseName path) (scriptText content) output).1).1 := by
        simp only [extractFiles, hfile]
      obtain ⟨scripts, hscripts⟩ :=
        ih (extract reference (FilePath.baseName path) (scriptText content) output).1
      refine ⟨(FilePath.baseName path, scriptText content) :: scripts, ?_⟩
      rw [hrun, hscripts, extractAll, extractAll, List.foldl_cons]

end MissionText
