/-
  Stale translations after extraction.

  A translation is carried over only for the same source text, but a later
  directive for the same key leaves what was carried over before it in place.

  * `IsStale`: a key has a translation although its source text is not that of
    the reference.
  * `isStale_extractAll_iff`: a key of the output is stale exactly if some step
    brought it a translation and the last directive for it, a later one, changed
    its source text.
-/
import MissionText.Proofs.Script.Steps

namespace MissionText

/-- A key has a source text and a translation, but the reference does not have
    that source text. -/
def IsStale (reference output : Project) (package container key : String) : Prop :=
  ∃ text, output.sourceAt package container key = some text ∧
    output.IsTranslated package container key ∧
    ∀ saved, reference.sourceAt package container key = some saved →
      sameFolded saved text = false

variable {reference output : Project} {package container key : String}

/-! ## Runs -/

/-- **A key is translated after steps** if it was before or one of them brought it
    a translation. -/
theorem isTranslated_runSteps_iff (ho : output.WellFormed) (href : reference.WellFormed)
    (steps : List Step) :
    (runSteps reference steps output).IsTranslated package container key ↔
      output.IsTranslated package container key ∨
        ∃ before s after, steps = before ++ s :: after ∧
          s.Brings reference (runSteps reference before output) package container key := by
  induction steps generalizing output with
  | nil =>
    constructor
    · exact .inl
    · rintro (h | ⟨before, s, after, h, -⟩)
      · exact h
      · exact absurd h.symm (List.append_ne_nil_of_right_ne_nil _ (List.cons_ne_nil s after))
  | cons s steps ih =>
    have hrun : runSteps reference (s :: steps) output =
        runSteps reference steps (s.apply reference output) := rfl
    rw [hrun, ih (s.wellFormed_apply ho), isTranslated_apply ho href]
    constructor
    · rintro ((h | h) | ⟨before, s', after, rfl, h⟩)
      · exact .inl h
      · exact .inr ⟨[], s, steps, rfl, h⟩
      · exact .inr ⟨s :: before, s', after, rfl, h⟩
    · rintro (h | ⟨before, s', after, heq, h⟩)
      · exact .inl (.inl h)
      · rcases List.cons_eq_append_iff.1 heq with ⟨rfl, heq⟩ | ⟨before, rfl, rfl⟩
        · obtain ⟨rfl, rfl⟩ := List.cons.inj heq
          exact .inl (.inr h)
        · exact .inr ⟨before, s', after, rfl, h⟩

/-- No directive of the steps is for the key. -/
def NoneFor (package container key : String) (steps : List Step) : Prop :=
  ∀ d, .save d ∈ steps → ¬ d.IsFor package container key

theorem NoneFor.tail {s : Step} {steps : List Step} (h : NoneFor package container key (s :: steps)) :
    NoneFor package container key steps :=
  fun d hd => h d (List.mem_cons_of_mem _ hd)

/-- A step that is no directive for a key keeps its source text, or takes that of
    the reference where there is none. -/
theorem sourceAt_apply_of_noneFor (ho : output.WellFormed) (href : reference.WellFormed)
    {s : Step} {steps : List Step} (h : NoneFor package container key (s :: steps)) :
    (s.apply reference output).sourceAt package container key =
        output.sourceAt package container key ∨
      (output.sourceAt package container key = none ∧
        (s.apply reference output).sourceAt package container key =
          reference.sourceAt package container key) := by
  cases s with
  | save d =>
    have hfor := h d List.mem_cons_self
    unfold Directive.IsFor at hfor
    left
    rw [Step.apply, sourceAt_save ho href, if_neg hfor]
  | use u => exact sourceAt_use ho href u

/-- **Without a directive for a key** its source text stays, or becomes that of the
    reference. -/
theorem sourceAt_runSteps_of_noneFor (ho : output.WellFormed) (href : reference.WellFormed)
    {steps : List Step} (h : NoneFor package container key steps) :
    (runSteps reference steps output).sourceAt package container key =
        output.sourceAt package container key ∨
      (output.sourceAt package container key = none ∧
        (runSteps reference steps output).sourceAt package container key =
          reference.sourceAt package container key) := by
  induction steps generalizing output with
  | nil => exact .inl rfl
  | cons s steps ih =>
    have hrun : runSteps reference (s :: steps) output =
        runSteps reference steps (s.apply reference output) := rfl
    rw [hrun]
    rcases ih (s.wellFormed_apply ho) h.tail with hrest | ⟨hnone, hrest⟩
    · rw [hrest]
      exact sourceAt_apply_of_noneFor ho href h
    · rcases sourceAt_apply_of_noneFor ho href h with hstep | ⟨hold, hstep⟩
      · exact .inr ⟨hstep.symm.trans hnone, hrest⟩
      · exact .inr ⟨hold, hrest⟩

/-- A key with a source text is brought nothing by the use of identifiers. -/
theorem isTranslated_runSteps_of_noneFor (ho : output.WellFormed) (href : reference.WellFormed)
    {steps : List Step} (h : NoneFor package container key steps)
    (hsource : output.sourceAt package container key ≠ none) :
    (runSteps reference steps output).IsTranslated package container key ↔
      output.IsTranslated package container key := by
  rw [isTranslated_runSteps_iff ho href]
  refine or_iff_left ?_
  rintro ⟨before, s, after, rfl, hbrings⟩
  have hbefore : NoneFor package container key before := fun d hd =>
    h d (List.mem_append_left _ hd)
  cases s with
  | save d => exact h d (by simp) hbrings.1
  | use u =>
    obtain ⟨hnone, m, hm, hfor, -⟩ := hbrings
    have hlost := hfor.textAt_eq_none href hm hnone originalTag
    rcases sourceAt_runSteps_of_noneFor ho href hbefore with hkept | ⟨hold, -⟩
    · exact hsource (hkept.symm.trans hlost)
    · exact hsource hold

theorem exists_last_save {steps : List Step} (h : ¬ NoneFor package container key steps) :
    ∃ before d after, steps = before ++ .save d :: after ∧ d.IsFor package container key ∧
      NoneFor package container key after := by
  induction steps with
  | nil => exact absurd (fun d hd => by cases hd) h
  | cons s steps ih =>
    by_cases hrest : NoneFor package container key steps
    · cases s with
      | save d =>
        refine ⟨[], d, steps, rfl, ?_, hrest⟩
        by_contra hfor
        refine h fun e he => ?_
        rcases List.mem_cons.1 he with he | he
        · rw [Step.save.inj he]
          exact hfor
        · exact hrest e he
      | use u =>
        refine absurd (fun e he => ?_) h
        rcases List.mem_cons.1 he with he | he
        · cases he
        · exact hrest e he
    · obtain ⟨before, d, after, rfl, hfor, hafter⟩ := ih hrest
      exact ⟨s :: before, d, after, rfl, hfor, hafter⟩

/-! ## The last directive -/

theorem Directive.IsFor.sourceAt_eq {d : Directive} (h : d.IsFor package container key)
    (p : Project) : p.sourceAt d.package d.container d.key = p.sourceAt package container key := by
  refine Project.textAt_congr p ?_
  rw [Address.same_of_language, sameFolded_refl, Bool.and_true]
  exact h

/-- **The source text after the last directive for a key** is that of the
    directive.  If this is empty, the key can only have that of the reference. -/
theorem sourceAt_runSteps_save (ho : output.WellFormed) (href : reference.WellFormed)
    {d : Directive} (hfor : d.IsFor package container key) {after : List Step}
    (hafter : NoneFor package container key after) :
    (d.text ≠ "" ∧ (runSteps reference (.save d :: after) output).sourceAt package container key =
        some d.text) ∨
      (d.text = "" ∧ ∀ text, (runSteps reference (.save d :: after) output).sourceAt package
        container key = some text → reference.sourceAt package container key = some text) := by
  have hsave : ((Step.save d).apply reference output).sourceAt package container key =
      if d.text.isEmpty then none else some d.text := by
    rw [Step.apply, sourceAt_save ho href]
    exact if_pos hfor
  have hwell : ((Step.save d).apply reference output).WellFormed := Step.wellFormed_apply ho _
  have hsource := sourceAt_runSteps_of_noneFor hwell href hafter
  have hrun : runSteps reference (.save d :: after) output =
      runSteps reference after ((Step.save d).apply reference output) := rfl
  rw [hrun]
  by_cases htext : d.text = ""
  · refine .inr ⟨htext, fun text hsome => ?_⟩
    rcases hsource with hkept | ⟨-, hcopied⟩
    · rw [hkept, hsave, htext] at hsome
      cases hsome
    · exact hcopied.symm.trans hsome
  · rw [String.isEmpty_eq_false_iff.2 htext, if_neg Bool.false_ne_true] at hsave
    refine .inl ⟨htext, ?_⟩
    rcases hsource with hkept | ⟨hnone, -⟩
    · rw [hkept, hsave]
    · rw [hsave] at hnone
      cases hnone

/-- **After the last directive for a key** the key is stale if and only if the
    directive changed the source text of a key that was translated before it. -/
theorem isStale_runSteps_save_iff (ho : output.WellFormed) (href : reference.WellFormed)
    {d : Directive} (hfor : d.IsFor package container key) {after : List Step}
    (hafter : NoneFor package container key after) :
    IsStale reference (runSteps reference (.save d :: after) output) package container key ↔
      d.ChangesSource reference ∧ output.IsTranslated package container key := by
  rcases sourceAt_runSteps_save ho href hfor hafter with ⟨htext, hlast⟩ | ⟨htext, hcopied⟩
  · have hsave : ((Step.save d).apply reference output).sourceAt package container key ≠ none := by
      rw [Step.apply, sourceAt_save ho href, String.isEmpty_eq_false_iff.2 htext,
        if_neg Bool.false_ne_true]
      unfold Directive.IsFor at hfor
      rw [if_pos hfor]
      exact Option.some_ne_none _
    have hwell : ((Step.save d).apply reference output).WellFormed := Step.wellFormed_apply ho _
    have htranslated := isTranslated_runSteps_of_noneFor hwell href hafter hsave
    have hchanges : d.ChangesSource reference → (((Step.save d).apply reference output).IsTranslated
        package container key ↔ output.IsTranslated package container key) := by
      intro h
      rw [isTranslated_apply ho href]
      exact or_iff_left fun hbrings => hbrings.2 (h.carriedFrom_eq_nil href)
    constructor
    · rintro ⟨text, hsome, htr, hdiffers⟩
      obtain rfl := Option.some.inj (hlast.symm.trans hsome)
      have hchange : d.ChangesSource reference := ⟨htext, fun saved hsaved =>
        hdiffers saved (by rw [← hfor.sourceAt_eq, hsaved])⟩
      exact ⟨hchange, (hchanges hchange).1 (htranslated.1 htr)⟩
    · rintro ⟨hchange, htr⟩
      refine ⟨d.text, hlast, htranslated.2 ((hchanges hchange).2 htr), fun saved hsaved => ?_⟩
      exact hchange.2 saved (by rw [hfor.sourceAt_eq, hsaved])
  · -- The source text is deleted; if the key gets one again, it is that of the reference.
    constructor
    · rintro ⟨text, hsome, -, hdiffers⟩
      have hsame := hdiffers text (hcopied text hsome)
      rw [sameFolded_refl] at hsame
      cases hsame
    · rintro ⟨hchanges, -⟩
      exact absurd htext hchanges.1

/-- **Which keys of an extraction are stale**: those to which some step brought a
    translation, and whose source text the last directive for them changed after
    that step. -/
theorem isStale_extractAll_iff (href : reference.Reachable) (name : String)
    (scripts : List (String × String)) (package container key : String) :
    IsStale reference (extractAll reference scripts (.new name)) package container key ↔
      ∃ before s between d after,
        scripts.flatMap stepsOf = (before ++ s :: between) ++ .save d :: after ∧
          s.Brings reference (runSteps reference before (.new name)) package container key ∧
          d.IsFor package container key ∧ d.ChangesSource reference ∧
          NoneFor package container key after := by
  have href := href.wellFormed
  have hnew : (Project.new name).WellFormed := Project.wellFormed_new name
  have hempty : ¬ (Project.new name).IsTranslated package container key := by
    rintro ⟨language, -, hsome⟩
    cases hsome
  rw [extractAll_eq_runSteps]
  constructor
  · intro hstale
    have hsome : ¬ NoneFor package container key (scripts.flatMap stepsOf) := by
      intro hnone
      obtain ⟨text, htext, -, hdiffers⟩ := hstale
      rcases sourceAt_runSteps_of_noneFor hnew href hnone with hkept | ⟨-, hcopied⟩
      · rw [hkept] at htext
        cases htext
      · have hsame := hdiffers text (hcopied.symm.trans htext)
        rw [sameFolded_refl] at hsame
        cases hsame
    obtain ⟨before, d, after, hsteps, hfor, hafter⟩ := exists_last_save hsome
    rw [hsteps, runSteps_append,
      isStale_runSteps_save_iff (wellFormed_runSteps hnew before) href hfor hafter] at hstale
    obtain ⟨hchanges, htranslated⟩ := hstale
    rcases (isTranslated_runSteps_iff hnew href before).1 htranslated with h | h
    · exact absurd h hempty
    · obtain ⟨first, s, between, rfl, hbrings⟩ := h
      exact ⟨first, s, between, d, after, hsteps, hbrings, hfor, hchanges, hafter⟩
  · rintro ⟨before, s, between, d, after, hsteps, hbrings, hfor, hchanges, hafter⟩
    rw [hsteps, runSteps_append,
      isStale_runSteps_save_iff (wellFormed_runSteps hnew _) href hfor hafter]
    exact ⟨hchanges, (isTranslated_runSteps_iff hnew href _).2
      (.inr ⟨before, s, between, rfl, hbrings⟩)⟩

/-- A reference with one translated key. -/
def greeting : Project :=
  ⟨"Mission", [⟨"Main", [⟨"intro", [⟨"STR_greet",
    [⟨"Original", "Hello"⟩, ⟨"German", "Hallo"⟩]⟩]⟩]⟩]⟩

theorem reachable_greeting : greeting.Reachable := by
  have hwrites : (Project.new "Mission").setAll
      [(⟨"Main", "intro", "STR_greet", "Original"⟩, "Hello"),
        (⟨"Main", "intro", "STR_greet", "German"⟩, "Hallo")] = greeting := by
    decide
  rw [← hwrites]
  exact (Project.Reachable.new _).setAll _

theorem sourceAt_greeting : greeting.sourceAt "Main" "intro" "STR_greet" = some "Hello" := by
  decide

/-- A key that is copied because a script uses it, and that a later script
    redefines, is stale. -/
theorem isStale_of_use_then_save :
    IsStale greeting
      (extractAll greeting
        [("hints", "hint localize \"str_greet\";\n"),
          ("init", "// TR Main intro STR_greet \"Bye\"\n")] (.new "Mission"))
      "Main" "intro" "STR_greet" := by
  have hsource := sourceAt_greeting
  refine (isStale_extractAll_iff reachable_greeting _ _ _ _ _).2
    ⟨[], .use ⟨1, "str_greet"⟩, [], ⟨"Main", "intro", "STR_greet", "Bye"⟩,
      [.use ⟨1, "STR_greet"⟩], ?_, ⟨?_, ?_⟩, ?_, ⟨?_, ?_⟩, ?_⟩
  · decide +kernel
  · decide +kernel
  · refine ⟨⟨"Main", "intro", "STR_greet", [⟨"Original", "Hello"⟩, ⟨"German", "Hallo"⟩]⟩, ?_, ?_,
      ⟨"German", "Hallo"⟩, ?_, ?_⟩
    · decide +kernel
    · unfold KeyMatch.IsFor
      decide +kernel
    · decide
    · decide
  · unfold Directive.IsFor
    decide +kernel
  · decide
  · intro saved hsaved
    obtain rfl := Option.some.inj (hsource.symm.trans hsaved)
    decide +kernel
  · intro d hd
    cases List.mem_singleton.1 hd

/-- The second of two directives for a key leaves what the first carried over. -/
theorem isStale_of_save_then_save :
    greeting.Reachable ∧
      IsStale greeting
        (extractAll greeting
          [("init", "// TR Main intro STR_greet \"Hello\"\n// TR Main intro STR_greet \"Bye\"\n")]
          (.new "Mission"))
        "Main" "intro" "STR_greet" := by
  refine ⟨reachable_greeting, "Bye", ?_, ⟨"German", ?_, ?_⟩, ?_⟩
  · decide +kernel
  · decide +kernel
  · decide +kernel
  · intro saved hsaved
    obtain rfl := Option.some.inj (sourceAt_greeting.symm.trans hsaved)
    decide +kernel

end MissionText
