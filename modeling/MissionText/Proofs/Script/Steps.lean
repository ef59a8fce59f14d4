/-
  Extraction step by step.

  A script is a list of steps: its directives are saved, then the identifiers it
  uses are looked up.  `runSteps` is the output after steps, and
  `extractAll_eq_runSteps` says that scripts are nothing but their steps.

  What one step does to a key is said by
  * `sourceAt_save`, `sourceAt_use` for its source text, and
  * `isTranslated_apply` for its translations: a key has one after a step if it
    had one before it or the step `Brings` one.
-/
import MissionText.Proofs.Catalog.Lookup
import MissionText.Script.Extraction

namespace MissionText

/-! ## Steps -/

/-- A change of the output. -/
inductive Step where
  | save (d : Directive)
  | use (u : IdentifierUse)
  deriving Repr, DecidableEq

/-- The output after a step. -/
def Step.apply (reference : Project) : Step → Project → Project
  | save d, output => (d.save reference output).1
  | use u, output => (resolveOne reference u output).1

/-- The output after steps. -/
def runSteps (reference : Project) (steps : List Step) (output : Project) : Project :=
  steps.foldl (fun output s => s.apply reference output) output

/-- The steps of a script: its directives, then the identifiers it uses. -/
def stepsOf (script : String × String) : List Step :=
  (scan script.1 script.2.toList).map .save ++ (identifierUses script.2.toList).map .use

/-- The output after scripts, given by base name and content. -/
def extractAll (reference : Project) (scripts : List (String × String)) (output : Project) :
    Project :=
  scripts.foldl (fun output s => (extract reference s.1 s.2 output).1) output

theorem runSteps_append (reference : Project) (steps steps' : List Step) (output : Project) :
    runSteps reference (steps ++ steps') output =
      runSteps reference steps' (runSteps reference steps output) :=
  List.foldl_append

theorem fst_saveAll (reference : Project) (ds : List Directive) (output : Project) :
    (saveAll reference ds output).1 = runSteps reference (ds.map .save) output := by
  induction ds generalizing output with
  | nil => rfl
  | cons d ds ih => exact ih (d.save reference output).1

theorem fst_resolveAll (reference : Project) (uses : List IdentifierUse) (output : Project) :
    (resolveAll reference uses output).1 = runSteps reference (uses.map .use) output := by
  induction uses generalizing output with
  | nil => rfl
  | cons u uses ih => exact ih (resolveOne reference u output).1

theorem fst_extract (reference : Project) (script : String × String) (output : Project) :
    (extract reference script.1 script.2 output).1 =
      runSteps reference (stepsOf script) output := by
  rw [stepsOf, runSteps_append, ← fst_saveAll, ← fst_resolveAll]
  rfl

/-- **Scripts are their steps.** -/
theorem extractAll_eq_runSteps (reference : Project) (scripts : List (String × String))
    (output : Project) :
    extractAll reference scripts output =
      runSteps reference (scripts.flatMap stepsOf) output := by
  induction scripts generalizing output with
  | nil => rfl
  | cons s scripts ih =>
    rw [List.flatMap_cons, runSteps_append, ← fst_extract, ← ih]
    rfl

/-! ## Directives of scripts -/

/-- The directives of scripts, in order. -/
def directivesOf (scripts : List (String × String)) : List Directive :=
  scripts.flatMap fun s => scan s.1 s.2.toList

/-- The directive of a step. -/
def Step.directive? : Step → Option Directive
  | save d => some d
  | use _ => none

theorem filterMap_directive?_stepsOf (script : String × String) :
    (stepsOf script).filterMap Step.directive? = scan script.1 script.2.toList := by
  simp [stepsOf, List.filterMap_map, Function.comp_def, Step.directive?]

theorem directivesOf_eq_filterMap (scripts : List (String × String)) :
    directivesOf scripts = (scripts.flatMap stepsOf).filterMap Step.directive? := by
  simp only [directivesOf, List.filterMap_flatMap, filterMap_directive?_stepsOf]

theorem mem_directivesOf {scripts : List (String × String)} {d : Directive} :
    d ∈ directivesOf scripts ↔ .save d ∈ scripts.flatMap stepsOf := by
  rw [directivesOf_eq_filterMap, List.mem_filterMap]
  constructor
  · rintro ⟨s, hs, hd⟩
    cases s with
    | save e => rwa [← Option.some.inj hd]
    | use u => cases hd
  · intro hd
    exact ⟨.save d, hd, rfl⟩

/-! ## What is said about a key -/

namespace Project

/-- The source text of a key. -/
def sourceAt (p : Project) (package container key : String) : Option String :=
  p.textAt ⟨package, container, key, originalTag⟩

/-- The key has a text in a language other than that of its source text. -/
def IsTranslated (p : Project) (package container key : String) : Prop :=
  ∃ language, sameFolded language originalTag = false ∧
    (p.textAt ⟨package, container, key, language⟩).isSome = true

end Project

/-- The directive declares the source text of a key. -/
def Directive.IsFor (d : Directive) (package container key : String) : Prop :=
  (d.address originalTag).sameKey ⟨package, container, key, originalTag⟩ = true

/-- The key is the one at a place. -/
def KeyMatch.IsFor (m : KeyMatch) (package container key : String) : Prop :=
  Address.sameKey ⟨m.package, m.container, m.key.id, originalTag⟩
    ⟨package, container, key, originalTag⟩ = true

/-- The source text that a directive declares is not that of the reference. -/
def Directive.ChangesSource (reference : Project) (d : Directive) : Prop :=
  d.text ≠ "" ∧ ∀ saved, reference.sourceAt d.package d.container d.key = some saved →
    sameFolded saved d.text = false

/-- A step puts translations at a key: a directive that carries some over, or the
    use of an identifier that copies a key with some. -/
def Step.Brings (reference output : Project) (package container key : String) : Step → Prop
  | save d => d.IsFor package container key ∧ d.carriedFrom reference ≠ []
  | use u => output.findKey? u.identifier = none ∧
    ∃ m, reference.findKey? u.identifier = some m ∧ m.IsFor package container key ∧
      ∃ t ∈ m.key.translations, t.isOriginal = false

/-- Only the source text has the language tag of source texts, in any case. -/
theorem Translation.isOriginal_eq (t : Translation) :
    t.isOriginal = sameFolded t.language originalTag :=
  (sameFolded_eq_sameAscii (by decide) t.language).symm

variable {reference output : Project} {package container key : String}

theorem Address.same_of_language {p c k p' c' k' l l' : String} :
    Address.same ⟨p, c, k, l⟩ ⟨p', c', k', l'⟩ =
      (Address.sameKey ⟨p, c, k, originalTag⟩ ⟨p', c', k', originalTag⟩ && sameFolded l l') :=
  Address.same_eq _ _

/-! ## Directives -/

/-- What a directive carries over are translations of its key in the reference,
    which has the same source text. -/
theorem Directive.mem_carriedFrom (href : reference.WellFormed) {d : Directive} {t : Translation}
    (ht : t ∈ d.carriedFrom reference) :
    t.text ≠ "" ∧ sameFolded t.language originalTag = false ∧
      ∃ saved, reference.sourceAt d.package d.container d.key = some saved ∧
        sameFolded saved d.text = true := by
  unfold carriedFrom at ht
  split at ht
  · cases ht
  · next saved hsaved =>
    split at ht
    · next hsame =>
      obtain ⟨hmem, horiginal⟩ := List.mem_filter.1 ht
      have hsource : reference.sourceAt d.package d.container d.key = some saved.text := by
        rw [Project.sourceAt, Project.textAt_eq_translation?]
        exact congrArg (Option.map Translation.text) hsaved
      refine ⟨?_, ?_, saved.text, hsource, hsame⟩
      · rw [Project.translations_eq_key?] at hmem
        rcases hk : reference.key? d.package d.container d.key with _ | k
        · rw [hk] at hmem
          cases hmem
        · rw [hk] at hmem
          exact (href.key? hk).text_ne_empty hmem
      · rw [← t.isOriginal_eq]
        simpa using horiginal
    · cases ht

theorem Directive.ChangesSource.carriedFrom_eq_nil (href : reference.WellFormed) {d : Directive}
    (h : d.ChangesSource reference) : d.carriedFrom reference = [] := by
  rw [List.eq_nil_iff_forall_not_mem]
  intro t ht
  obtain ⟨-, -, saved, hsaved, hsame⟩ := d.mem_carriedFrom href ht
  rw [h.2 saved hsaved] at hsame
  cases hsame

/-- **The source text after a directive** is that of the directive at its key. -/
theorem sourceAt_save (ho : output.WellFormed) (href : reference.WellFormed) (d : Directive) :
    (d.save reference output).1.sourceAt package container key =
      if (d.address originalTag).sameKey ⟨package, container, key, originalTag⟩ then
        (if d.text.isEmpty then none else some d.text)
      else output.sourceAt package container key := by
  have hcarried : ∀ w ∈ (d.carriedFrom reference).map fun t => (d.address t.language, t.text),
      w.1.same ⟨package, container, key, originalTag⟩ = false := by
    intro w hw
    obtain ⟨t, ht, rfl⟩ := List.mem_map.1 hw
    rw [Directive.address, Address.same_of_language, (d.mem_carriedFrom href ht).2.1,
      Bool.and_false]
  rw [Project.sourceAt, Directive.save]
  dsimp only
  rw [Project.textAt_setAll_of_not_same (ho.set _ _) hcarried, Project.textAt_set _ _ ho,
    Address.same_eq]
  simp only [Directive.address, sameFolded_refl, Bool.and_true]
  rfl

/-- **A directive brings what it carries over**, and takes nothing away. -/
theorem isTranslated_save (ho : output.WellFormed) (href : reference.WellFormed) (d : Directive) :
    (d.save reference output).1.IsTranslated package container key ↔
      output.IsTranslated package container key ∨
        (Step.save d).Brings reference output package container key := by
  have hsource {language : String} (hl : sameFolded language originalTag = false) :
      (output.set (d.address originalTag) d.text).textAt ⟨package, container, key, language⟩ =
        output.textAt ⟨package, container, key, language⟩ := by
    rw [Project.textAt_set _ _ ho, Directive.address, Address.same_of_language,
      sameFolded_comm originalTag, hl, Bool.and_false]
    rfl
  have hws : ∀ w ∈ (d.carriedFrom reference).map fun t => (d.address t.language, t.text),
      w.2 ≠ "" := by
    intro w hw
    obtain ⟨t, ht, rfl⟩ := List.mem_map.1 hw
    exact (d.mem_carriedFrom href ht).1
  have hiff {language : String} (hl : sameFolded language originalTag = false) :
      ((d.save reference output).1.textAt ⟨package, container, key, language⟩).isSome = true ↔
        (output.textAt ⟨package, container, key, language⟩).isSome = true ∨
          ∃ w ∈ (d.carriedFrom reference).map fun t => (d.address t.language, t.text),
            w.1.same ⟨package, container, key, language⟩ = true := by
    rw [← hsource hl]
    exact Project.isSome_textAt_setAll (ho.set _ _) hws
  constructor
  · rintro ⟨language, hl, hsome⟩
    rcases (hiff hl).1 hsome with hold | ⟨w, hw, hsame⟩
    · exact .inl ⟨language, hl, hold⟩
    · obtain ⟨t, ht, rfl⟩ := List.mem_map.1 hw
      rw [Directive.address, Address.same_of_language, Bool.and_eq_true] at hsame
      exact .inr ⟨hsame.1, List.ne_nil_of_mem ht⟩
  · rintro (⟨language, hl, hold⟩ | ⟨hfor, hne⟩)
    · exact ⟨language, hl, (hiff hl).2 (.inl hold)⟩
    · obtain ⟨t, ht⟩ := List.exists_mem_of_ne_nil _ hne
      have hl := (d.mem_carriedFrom href ht).2.1
      refine ⟨t.language, hl, (hiff hl).2 (.inr ⟨_, List.mem_map_of_mem ht, ?_⟩)⟩
      rw [Directive.address, Address.same_of_language, sameFolded_refl, Bool.and_true]
      exact hfor

/-! ## Identifiers -/

theorem KeyMatch.IsFor.textAt_eq (href : reference.WellFormed) {id : String} {m : KeyMatch}
    (hm : reference.findKey? id = some m) (h : m.IsFor package container key) (language : String) :
    reference.textAt ⟨package, container, key, language⟩ = m.key.text? language := by
  have hsame : Address.same ⟨package, container, key, language⟩
      ⟨m.package, m.container, m.key.id, language⟩ = true := by
    rw [Address.same_comm, Address.same_of_language, sameFolded_refl, Bool.and_true]
    exact h
  rw [Project.textAt_congr _ hsame, Project.textAt_eq_key?, (href.findKey?_eq_some hm).2]
  rfl

theorem KeyMatch.IsFor.textAt_eq_none (href : reference.WellFormed) {id : String} {m : KeyMatch}
    (hm : reference.findKey? id = some m) (ho : output.findKey? id = none)
    (h : m.IsFor package container key) (language : String) :
    output.textAt ⟨package, container, key, language⟩ = none := by
  have hkey : sameFolded m.key.id key = true := by
    unfold KeyMatch.IsFor Address.sameKey at h
    simp only [Bool.and_eq_true] at h
    exact h.2.2
  have hid := (href.findKey?_eq_some hm).1
  refine Project.findKey?_eq_none ho ?_
  rw [← sameFolded_left hid]
  exact hkey

/-- **The text at a place after a key is copied to it.** -/
theorem textAt_setAll_writes (ho : output.WellFormed) (href : reference.WellFormed) {id : String}
    {m : KeyMatch} (hm : reference.findKey? id = some m) (hnone : output.findKey? id = none)
    (hfor : m.IsFor package container key) (language : String) :
    (output.setAll m.writes).textAt ⟨package, container, key, language⟩ =
      m.key.text? language := by
  have hkey : m.key.WellFormed := href.key? (href.findKey?_eq_some hm).2
  have hsame : Address.sameKey ⟨m.package, m.container, m.key.id, language⟩
      ⟨package, container, key, language⟩ = true := hfor
  rw [KeyMatch.writes, Project.textAt_setAll_key ho hkey, if_pos hsame,
    hfor.textAt_eq_none href hm hnone, Option.or_none]

theorem textAt_setAll_writes_of_not (ho : output.WellFormed) {m : KeyMatch}
    (hfor : ¬ m.IsFor package container key) (language : String) :
    (output.setAll m.writes).textAt ⟨package, container, key, language⟩ =
      output.textAt ⟨package, container, key, language⟩ := by
  refine Project.textAt_setAll_of_not_same ho fun w hw => ?_
  obtain ⟨t, -, rfl⟩ := List.mem_map.1 hw
  unfold KeyMatch.IsFor at hfor
  rw [Address.same_of_language, Bool.eq_false_iff.2 hfor, Bool.false_and]

/-- **The source text after the use of an identifier** is the same, or that of the
    reference where there was none. -/
theorem sourceAt_use (ho : output.WellFormed) (href : reference.WellFormed) (u : IdentifierUse) :
    (resolveOne reference u output).1.sourceAt package container key =
        output.sourceAt package container key ∨
      (output.sourceAt package container key = none ∧
        (resolveOne reference u output).1.sourceAt package container key =
          reference.sourceAt package container key) := by
  unfold resolveOne
  split
  · exact .inl rfl
  · next hnone =>
    split
    · exact .inl rfl
    · next m hm =>
      by_cases hfor : m.IsFor package container key
      · right
        refine ⟨hfor.textAt_eq_none href hm hnone originalTag, ?_⟩
        exact (textAt_setAll_writes ho href hm hnone hfor originalTag).trans
          (hfor.textAt_eq href hm originalTag).symm
      · exact .inl (textAt_setAll_writes_of_not ho hfor originalTag)

/-- **The use of an identifier brings what it copies**, and takes nothing away. -/
theorem isTranslated_use (ho : output.WellFormed) (href : reference.WellFormed)
    (u : IdentifierUse) :
    (resolveOne reference u output).1.IsTranslated package container key ↔
      output.IsTranslated package container key ∨
        (Step.use u).Brings reference output package container key := by
  unfold Step.Brings resolveOne
  split
  · next found hfound =>
    simp [hfound]
  · next hnone =>
    split
    · next hm => simp [hm]
    · next m hm =>
      by_cases hfor : m.IsFor package container key
      · have hold : ¬ output.IsTranslated package container key := by
          rintro ⟨language, -, hsome⟩
          rw [hfor.textAt_eq_none href hm hnone] at hsome
          cases hsome
        have hkey : m.key.WellFormed := href.key? (href.findKey?_eq_some hm).2
        constructor
        · rintro ⟨language, hl, hsome⟩
          rw [textAt_setAll_writes ho href hm hnone hfor] at hsome
          obtain ⟨text, htext⟩ := Option.isSome_iff_exists.1 hsome
          obtain ⟨t, ht, hlanguage, -⟩ := Key.exists_of_text? htext
          refine .inr ⟨hnone, m, hm, hfor, t, ht, ?_⟩
          rw [t.isOriginal_eq, sameFolded_left hlanguage, hl]
        · rintro (h | ⟨-, m', hm', -, t, ht, hl⟩)
          · exact absurd h hold
          · obtain rfl := Option.some.inj (hm.symm.trans hm')
            rw [t.isOriginal_eq] at hl
            refine ⟨t.language, hl, ?_⟩
            rw [textAt_setAll_writes ho href hm hnone hfor, hkey.text?_of_mem ht]
            rfl
      · have hsame : (output.setAll m.writes).IsTranslated package container key ↔
            output.IsTranslated package container key := by
          unfold Project.IsTranslated
          simp only [textAt_setAll_writes_of_not ho hfor]
        rw [hsame]
        constructor
        · exact .inl
        · rintro (h | ⟨-, m', hm', hfor', -⟩)
          · exact h
          · obtain rfl := Option.some.inj (hm.symm.trans hm')
            exact absurd hfor' hfor

/-- **A key is translated after a step** if it was before or the step brings it a
    translation. -/
theorem isTranslated_apply (ho : output.WellFormed) (href : reference.WellFormed) (s : Step) :
    (s.apply reference output).IsTranslated package container key ↔
      output.IsTranslated package container key ∨
        s.Brings reference output package container key := by
  cases s with
  | save d => exact isTranslated_save ho href d
  | use u => exact isTranslated_use ho href u

theorem Step.wellFormed_apply (ho : output.WellFormed) (s : Step) :
    (s.apply reference output).WellFormed := by
  cases s with
  | save d => exact (ho.set _ _).setAll _
  | use u =>
    rw [apply, resolveOne]
    split
    · exact ho
    · split
      · exact ho
      · exact ho.setAll _

theorem wellFormed_runSteps (ho : output.WellFormed) (steps : List Step) :
    (runSteps reference steps output).WellFormed := by
  induction steps generalizing output with
  | nil => exact ho
  | cons s steps ih => exact ih (s.wellFormed_apply ho)

theorem wellFormed_runSteps_new (reference : Project) (steps : List Step) (name : String) :
    (runSteps reference steps (.new name)).WellFormed :=
  wellFormed_runSteps (Project.wellFormed_new name) steps

theorem wellFormed_extractAll (ho : output.WellFormed) (scripts : List (String × String)) :
    (extractAll reference scripts output).WellFormed := by
  rw [extractAll_eq_runSteps]
  exact wellFormed_runSteps ho _

end MissionText
