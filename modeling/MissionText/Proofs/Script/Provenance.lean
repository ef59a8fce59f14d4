/-
  Where the texts of an extraction come from.

  * `lastFor?` is the last directive for a key.
  * `textAt_of_written`: what a step writes is a declared source text or a text
    of the reference.
  * `isFaithful_extractAll`: nothing is lost and nothing invented.
-/
import MissionText.Proofs.Script.Stale
import MissionText.Proofs.Script.Writes

namespace MissionText

variable {reference output : Project} {package container key : String}

/-! ## The last directive -/

instance (d : Directive) (package container key : String) :
    Decidable (d.IsFor package container key) :=
  inferInstanceAs (Decidable (_ = true))

/-- The last directive for a key. -/
def lastFor? (package container key : String) (ds : List Directive) : Option Directive :=
  (ds.filter (·.IsFor package container key)).getLast?

theorem NoneFor.lastFor?_eq_none {steps : List Step} (h : NoneFor package container key steps) :
    lastFor? package container key (steps.filterMap Step.directive?) = none := by
  rw [lastFor?, List.getLast?_eq_none_iff, List.filter_eq_nil_iff]
  intro d hd
  obtain ⟨s, hs, hsd⟩ := List.mem_filterMap.1 hd
  cases s with
  | save e =>
    obtain rfl := Option.some.inj hsd
    simpa using h e hs
  | use u => cases hsd

theorem lastFor?_append_save {before after : List Step} {d : Directive}
    (hfor : d.IsFor package container key) (hafter : NoneFor package container key after) :
    lastFor? package container key ((before ++ .save d :: after).filterMap Step.directive?) =
      some d := by
  have hnone := hafter.lastFor?_eq_none
  unfold lastFor? at hnone ⊢
  have hd : (Step.save d).directive? = some d := rfl
  rw [List.getLast?_eq_none_iff] at hnone
  rw [List.filterMap_append, List.filter_append, List.filterMap_cons_some hd,
    List.filter_cons_of_pos (by simpa using hfor), hnone, List.getLast?_append,
    List.getLast?_singleton]
  rfl

/-! ## What steps write -/

/-- Translations that a directive carries over are those of the reference. -/
theorem Directive.textAt_of_mem_carriedFrom (href : reference.WellFormed) {d : Directive}
    {t : Translation} (ht : t ∈ d.carriedFrom reference) :
    reference.textAt (d.address t.language) = some t.text := by
  have hmem : t ∈ reference.translations d.package d.container d.key := by
    unfold carriedFrom at ht
    split at ht
    · cases ht
    · split at ht
      · exact (List.mem_filter.1 ht).1
      · cases ht
  have hmem : t ∈ reference.translationsAt (d.address t.language) := hmem
  rcases hm : reference.locate? (d.address t.language) with _ | m
  · rw [Project.translationsAt_of_missing hm] at hmem
    cases hmem
  · rw [Project.translationsAt_of_locate? hm] at hmem
    exact href.textAt_of_locate? hm hmem (sameFolded_refl _)

/-- **What a step writes** is the source text of a directive or a text of the
    reference. -/
theorem textAt_of_written (href : reference.WellFormed) {s : Step} {m : KeyMatch}
    (hm : s.written? reference output = some m) {t : Translation}
    (ht : t ∈ m.key.translations) :
    (∃ d, s = .save d ∧ t = ⟨originalTag, d.text⟩) ∨
      reference.textAt { m.place with language := t.language } = some t.text := by
  cases s with
  | save d =>
    obtain rfl := Option.some.inj hm
    rcases List.mem_cons.1 ht with rfl | ht
    · exact .inl ⟨d, rfl, rfl⟩
    · exact .inr (d.textAt_of_mem_carriedFrom href ht)
  | use u =>
    obtain ⟨-, hm⟩ := IdentifierUse.written?_eq_some_iff.1 hm
    have hfound := (href.locate?_of_findKey? hm).2
    right
    exact href.textAt_of_locate? (a := { m.place with language := t.language }) hfound ht
      (sameFolded_refl _)

/-- A translation after a step was there before or is that of the reference. -/
theorem textAt_apply_of_translation (ho : output.WellFormed) (href : reference.WellFormed)
    (s : Step) {a : Address} (hl : sameFolded a.language originalTag = false) {text : String}
    (ht : (s.apply reference output).textAt a = some text) :
    output.textAt a = some text ∨ reference.textAt a = some text := by
  rw [Step.apply_eq] at ht
  rcases hm : s.written? reference output with _ | m
  · rw [hm] at ht
    exact .inl ht
  · rw [hm] at ht
    refine (Project.exists_of_textAt_setAll ho ht).imp_right ?_
    rintro ⟨w, hw, hsame, rfl⟩
    obtain ⟨t, hmem, rfl⟩ := List.mem_map.1 hw
    rcases textAt_of_written href hm hmem with ⟨d, -, rfl⟩ | htext
    · rw [Address.same_eq, Bool.and_eq_true, sameFolded_comm] at hsame
      rw [hsame.2] at hl
      cases hl
    · rw [← reference.textAt_congr hsame]
      exact htext

/-! ## Runs -/

/-- **A translation after steps** was there before or is that of the reference. -/
theorem textAt_runSteps_of_translation (ho : output.WellFormed) (href : reference.WellFormed)
    (steps : List Step) {a : Address} (hl : sameFolded a.language originalTag = false)
    {text : String} (ht : (runSteps reference steps output).textAt a = some text) :
    output.textAt a = some text ∨ reference.textAt a = some text := by
  induction steps generalizing output with
  | nil => exact .inl ht
  | cons s steps ih =>
    rcases ih (s.wellFormed_apply ho) ht with hfirst | hreference
    · exact textAt_apply_of_translation ho href s hl hfirst
    · exact .inr hreference

/-- **The source text after steps** of an empty project is that of the last
    directive for the key, or that of the reference. -/
theorem sourceAt_runSteps_new (href : reference.WellFormed) (name : String) (steps : List Step) :
    (∃ d, lastFor? package container key (steps.filterMap Step.directive?) = some d ∧
        d.text ≠ "" ∧
        (runSteps reference steps (.new name)).sourceAt package container key = some d.text) ∨
      ((∀ d, lastFor? package container key (steps.filterMap Step.directive?) = some d →
          d.text = "") ∧
        ∀ text, (runSteps reference steps (.new name)).sourceAt package container key = some text →
          reference.sourceAt package container key = some text) := by
  have hnew : (Project.new name).WellFormed := Project.wellFormed_new name
  by_cases hnone : NoneFor package container key steps
  · right
    rw [hnone.lastFor?_eq_none]
    refine ⟨fun d hd => (by cases hd), fun text hsome => ?_⟩
    rcases sourceAt_runSteps_of_noneFor hnew href hnone with hkept | ⟨-, hcopied⟩
    · rw [hkept] at hsome
      cases hsome
    · exact hcopied.symm.trans hsome
  · obtain ⟨before, d, after, rfl, hfor, hafter⟩ := exists_last_save hnone
    rw [lastFor?_append_save hfor hafter, runSteps_append]
    rcases sourceAt_runSteps_save (wellFormed_runSteps_new _ before name) href hfor hafter with
      ⟨htext, hlast⟩ | ⟨htext, hcopied⟩
    · exact .inl ⟨d, rfl, htext, hlast⟩
    · refine .inr ⟨fun e he => ?_, hcopied⟩
      rw [← Option.some.inj he, htext]

/-! ## Extraction -/

/-- Nothing is lost and nothing invented by the extraction of scripts into an
    empty project. -/
structure IsFaithful (reference : Project) (name : String) (scripts : List (String × String)) :
    Prop where
  /-- The source text of a key is that of the last directive for it. -/
  declared : ∀ package container key d,
    lastFor? package container key (directivesOf scripts) = some d → d.text ≠ "" →
      ((extractAll reference scripts (.new name)).translation?
        ⟨package, container, key, originalTag⟩).map Translation.text = some d.text
  /-- Every text is such a source text, or that of the reference at its address. -/
  traced : ∀ g ∈ (extractAll reference scripts (.new name)).packages, ∀ c ∈ g.containers,
    ∀ k ∈ c.keys, ∀ t ∈ k.translations,
      (sameFolded t.language originalTag = true ∧
        ∃ d, lastFor? g.name c.name k.id (directivesOf scripts) = some d ∧ d.text ≠ "" ∧
          t.text = d.text) ∨
        (reference.translation? ⟨g.name, c.name, k.id, t.language⟩).map Translation.text =
          some t.text
  /-- What is there after the directives of a script is there, as it was, after
      the identifiers that the script uses. -/
  kept : ∀ before s after, scripts = before ++ s :: after → ∀ a t,
    (saveAll reference (scan s.1 s.2.toList)
        (extractAll reference before (.new name))).1.translation? a = some t →
      (extract reference s.1 s.2
        (extractAll reference before (.new name))).1.translation? a = some t

/-- **The source text after an extraction** is that of the last directive for the
    key, or that of the reference. -/
theorem sourceAt_extractAll (href : reference.WellFormed) (name : String)
    (scripts : List (String × String)) :
    (∃ d, lastFor? package container key (directivesOf scripts) = some d ∧ d.text ≠ "" ∧
        (extractAll reference scripts (.new name)).sourceAt package container key = some d.text) ∨
      ((∀ d, lastFor? package container key (directivesOf scripts) = some d → d.text = "") ∧
        ∀ text, (extractAll reference scripts (.new name)).sourceAt package container key =
          some text → reference.sourceAt package container key = some text) := by
  rw [directivesOf_eq_filterMap, extractAll_eq_runSteps]
  exact sourceAt_runSteps_new href name _

/-- **Every text after an extraction** is the source text of a directive or a text
    of the reference. -/
theorem textAt_extractAll (href : reference.WellFormed) (name : String)
    (scripts : List (String × String)) {a : Address} {text : String}
    (ht : (extractAll reference scripts (.new name)).textAt a = some text) :
    (sameFolded a.language originalTag = true ∧
        ∃ d, lastFor? a.package a.container a.key (directivesOf scripts) = some d ∧
          d.text ≠ "" ∧ text = d.text) ∨
      reference.textAt a = some text := by
  by_cases hl : sameFolded a.language originalTag = true
  · have hsame : a.same ⟨a.package, a.container, a.key, originalTag⟩ = true := by
      simp [Address.same, hl]
    rw [Project.textAt_congr _ hsame] at ht
    rcases sourceAt_extractAll href name scripts with ⟨d, hd, htext, hlast⟩ | ⟨-, hcopied⟩
    · exact .inl ⟨hl, d, hd, htext, Option.some.inj (ht.symm.trans hlast)⟩
    · right
      rw [reference.textAt_congr hsame]
      exact hcopied text ht
  · right
    rw [extractAll_eq_runSteps] at ht
    rcases textAt_runSteps_of_translation (Project.wellFormed_new name) href _ (by simpa using hl)
      ht with hold | hreference
    · cases hold
    · exact hreference

/-- **Extraction loses nothing and invents nothing.** -/
theorem isFaithful_extractAll (href : reference.Reachable) (name : String)
    (scripts : List (String × String)) : IsFaithful reference name scripts := by
  have href := href.wellFormed
  constructor
  case declared =>
    intro package container key d hd htext
    rw [← Project.textAt_eq_translation?]
    rcases sourceAt_extractAll href name scripts with ⟨e, he, -, hlast⟩ | ⟨hempty, -⟩
    · rw [hd] at he
      obtain rfl := Option.some.inj he
      exact hlast
    · exact absurd (hempty d hd) htext
  case traced =>
    intro g hg c hc k hk t ht
    have hwell : (extractAll reference scripts (.new name)).WellFormed :=
      wellFormed_extractAll (Project.wellFormed_new name) scripts
    have htext := hwell.textAt_of_locate? (a := ⟨g.name, c.name, k.id, t.language⟩)
      (hwell.locate?_of_mem hg hc hk) ht (sameFolded_refl _)
    have htraced := textAt_extractAll href name scripts htext
    rw [← Project.textAt_eq_translation?]
    exact htraced
  case kept =>
    rintro before s after - a t ht
    refine translation?_resolveAll ?_ href _ ht
    rw [fst_saveAll]
    exact wellFormed_runSteps (wellFormed_extractAll (Project.wellFormed_new name) before) _

/-- The first script copies a key, which the second one declares anew. -/
theorem isFaithful_greeting :
    greeting.Reachable ∧
      IsFaithful greeting "Mission"
        [("hints", "hint localize \"str_greet\";\n"),
          ("init", "// TR Main intro STR_greet \"Bye\"\n")] :=
  ⟨reachable_greeting, isFaithful_extractAll reachable_greeting _ _⟩

end MissionText
