/-
  Extraction again, with its own output as the reference.

  The second run is followed next to the first one.  After equally many steps the
  two outputs are alike (`Orderly.alike_runSteps`): what the first run copies from
  its reference, the second one finds in the output of the first, at the place as
  it is spelled there (`Orderly.findKey?_eq_some`).  In the end they are equal
  (`Orderly.runSteps_again`).

  `extractAll_again` says this of scripts, with their reports.
-/
import MissionText.Proofs.Catalog.Alike
import MissionText.Proofs.Script.KeyHistory
import MissionText.Proofs.Script.Reports

namespace MissionText

variable {reference output : Project}

/-! ## What the first run copies -/

section Orderly

variable {steps : List Step} (h : Orderly steps) (href : reference.WellFormed) (name : String)
include h href

/-- What the first run does not find in its reference, the second does not find
    either. -/
theorem Orderly.findKey?_eq_none {before after : List Step} {u : IdentifierUse}
    (hsteps : steps = before ++ .use u :: after)
    (hunknown : (runSteps reference before (.new name)).findKey? u.identifier = none)
    (hnone : reference.findKey? u.identifier = none) :
    (runSteps reference steps (.new name)).findKey? u.identifier = none := by
  have hcopied := isCopied_runSteps (Project.wellFormed_new name) href h.hasText
    (h.not_declares href name hsteps hunknown) (isCopied_new reference name u.identifier)
  rw [(wellFormed_runSteps_new reference steps name).findKey?_eq_none_iff]
  intro a ha
  rcases hcopied a ha with hmissing | ⟨m, hm, -⟩
  · exact hmissing
  · rw [hnone] at hm
    cases hm

/-- **What the first run copies, the second finds** in the output of the first, at
    the place to which it was copied. -/
theorem Orderly.findKey?_eq_some {before after : List Step} {u : IdentifierUse}
    (hsteps : steps = before ++ .use u :: after)
    (hunknown : (runSteps reference before (.new name)).findKey? u.identifier = none)
    {m : KeyMatch} (hm : reference.findKey? u.identifier = some m) :
    ∃ n, (runSteps reference steps (.new name)).findKey? u.identifier = some n ∧
      n.place = ((runSteps reference before (.new name)).target m.place).place := by
  have hbefore := wellFormed_runSteps_new reference before name
  have hwell := wellFormed_runSteps_new reference steps name
  have hcopied := isCopied_runSteps (Project.wellFormed_new name) href h.hasText
    (h.not_declares href name hsteps hunknown) (isCopied_new reference name u.identifier)
  -- The copy is still there in the end.
  obtain ⟨n, hn, hplace⟩ := locate?_apply_of_written hbefore href (s := .use u) trivial
    (IdentifierUse.written?_eq_some_iff.2 ⟨hunknown, hm⟩)
  have hafter : ∀ s ∈ after, s.HasText := fun s hs => h.hasText s (by simp [hsteps, hs])
  obtain ⟨n', hn', hplace'⟩ := exists_locate?_runSteps (Step.wellFormed_apply hbefore _) href
    hafter hn
  have hrun : runSteps reference steps (.new name) = runSteps reference after
      ((Step.use u).apply reference (runSteps reference before (.new name))) := by
    rw [hsteps, runSteps_append]
    rfl
  rw [← hrun] at hn'
  have hid := (href.locate?_of_findKey? hm).1
  rcases hfound : (runSteps reference steps (.new name)).findKey? u.identifier with _ | k
  · have hmissing := hwell.findKey?_eq_none_iff.1 hfound m.place hid
    exact absurd (hn'.symm.trans hmissing) (Option.some_ne_none n')
  · -- It is the only key of its id.
    obtain ⟨hkid, hk⟩ := hwell.locate?_of_findKey? hfound
    rcases hcopied k.place hkid with hmissing | ⟨m', hm', hsame, -⟩
    · exact absurd (hk.symm.trans hmissing) (Option.some_ne_none k)
    · obtain rfl := Option.some.inj (hm.symm.trans hm')
      rw [← Project.locate?_congr _ hsame, hn'] at hk
      obtain rfl := Option.some.inj hk
      exact ⟨n', rfl, hplace'.trans hplace⟩

end Orderly

/-! ## Both runs -/

/-- What two runs do at the use of an identifier: one from an output `p` with the
    reference `R`, the other from `q` with `O`. -/
inductive SameUse (R p O q : Project) (id : String) : Prop
  | known {m n : KeyMatch} (hp : p.findKey? id = some m) (hq : q.findKey? id = some n)
  | orphan (hp : p.findKey? id = none) (hq : q.findKey? id = none)
      (hR : R.findKey? id = none) (hO : O.findKey? id = none)
  | copied {m n : KeyMatch} (hp : p.findKey? id = none) (hq : q.findKey? id = none)
      (hR : R.findKey? id = some m) (hO : O.findKey? id = some n)
      (hplace : n.place = (p.target m.place).place)

section Orderly

variable {steps : List Step} (h : Orderly steps) (href : reference.WellFormed) (name : String)
include h href

theorem Orderly.sameUse {before after : List Step} {u : IdentifierUse}
    (hsteps : steps = before ++ .use u :: after) {q : Project} (hq : q.WellFormed)
    (halike : (runSteps reference before (.new name)).Alike q) :
    SameUse reference (runSteps reference before (.new name))
      (runSteps reference steps (.new name)) q u.identifier := by
  have hp := wellFormed_runSteps_new reference before name
  have hiff := halike.findKey?_eq_none_iff hp hq u.identifier
  rcases hknown : (runSteps reference before (.new name)).findKey? u.identifier with _ | m
  · have hqnone := hiff.1 hknown
    rcases hR : reference.findKey? u.identifier with _ | m
    · exact .orphan hknown hqnone hR (h.findKey?_eq_none href name hsteps hknown hR)
    · obtain ⟨n, hO, hplace⟩ := h.findKey?_eq_some href name hsteps hknown hR
      exact .copied hknown hqnone hR hO hplace
  · rcases hqknown : q.findKey? u.identifier with _ | n
    · rw [hiff.2 hqknown] at hknown
      cases hknown
    · exact .known hknown hqknown

/-- One more step keeps the outputs of the runs alike. -/
theorem Orderly.alike_apply {before after : List Step} {s : Step}
    (hsteps : steps = before ++ s :: after) {q : Project} (hq : q.WellFormed)
    (halike : (runSteps reference before (.new name)).Alike q) :
    (s.apply reference (runSteps reference before (.new name))).Alike
      (s.apply (runSteps reference steps (.new name)) q) := by
  have hO := wellFormed_runSteps_new reference steps name
  rw [s.apply_eq, s.apply_eq]
  cases s with
  | save d =>
    have hd : (Step.save d).HasText := h.hasText _ (by simp [hsteps])
    exact halike.setAll_writes (d.hasTexts_written href hd) (d.hasTexts_written hO hd) (.inl rfl)
  | use u =>
    cases h.sameUse href name hsteps hq halike with
    | known hp hq =>
      simp only [Step.written?, IdentifierUse.written?, hp, hq]
      exact halike
    | orphan hp hq hR hO =>
      simp only [Step.written?, IdentifierUse.written?, hp, hq, hR, hO]
      exact halike
    | copied hp hq hR hO' hplace =>
      simp only [Step.written?, IdentifierUse.written?, hp, hq, hR, hO']
      exact halike.setAll_writes (href.key_of_locate? (href.locate?_of_findKey? hR).2).2
        (hO.key_of_locate? (hO.locate?_of_findKey? hO').2).2 (.inr hplace)

/-- **After equally many steps** the outputs of the runs are alike. -/
theorem Orderly.alike_runSteps {before after : List Step} (hsteps : steps = before ++ after) :
    (runSteps reference before (.new name)).Alike
      (runSteps (runSteps reference steps (.new name)) before (.new name)) := by
  induction before using List.reverseRecOn generalizing after with
  | nil => exact Project.alike_new name
  | append_singleton before s ih =>
    rw [List.append_assoc, List.singleton_append] at hsteps
    rw [runSteps_concat, runSteps_concat]
    exact h.alike_apply href name hsteps (wellFormed_runSteps_new _ before name) (ih hsteps)

/-! ## The same translations -/

omit h href in
/-- Translations that are drawn from any reference are a source text and the
    others. -/
theorem Drawn.eq_cons_othersAt {p : Project} {a : Address} {text : String}
    (hdrawn : Drawn reference a text (p.translationsAt a)) :
    p.translationsAt a = ⟨originalTag, text⟩ :: p.othersAt a := by
  have hsource : (⟨originalTag, text⟩ : Translation).isOriginal = true := by
    rw [Translation.isOriginal_eq, sameFolded_refl]
  unfold Project.othersAt
  rcases hdrawn with htranslations | htranslations
  · rw [htranslations]
    simp [hsource]
  · rw [htranslations, Project.othersAt]
    simp [hsource, List.filter_filter]

/-- A key that is declared has the same translations in the end. -/
theorem Orderly.translationsAt_again_of_declares {a : Address} (hdecl : Declares steps a.key) :
    (runSteps (runSteps reference steps (.new name)) steps (.new name)).translationsAt a =
      (runSteps reference steps (.new name)).translationsAt a := by
  have hO := wellFormed_runSteps_new reference steps name
  have hall : steps = [] ++ steps ++ [] := by simp
  by_cases hnone : NoneFor a.package a.container a.key steps
  · have hfirst := h.translationsAt_of_noneFor href name hdecl hall hnone
    have hsecond := h.translationsAt_of_noneFor hO name hdecl hall hnone
    exact hsecond.trans hfirst.symm
  · obtain ⟨before, d, after, hsteps, hfor, hafter⟩ := exists_last_save hnone
    have hdrawn := (h.translationsAt_runSteps href name hsteps hfor hafter).1
    have hcarried := (h.translationsAt_runSteps hO name hsteps hfor hafter).2
    have hsource : (runSteps reference steps (.new name)).sourceAt a.package a.container a.key =
        some d.text := by
      rcases sourceAt_runSteps_save (wellFormed_runSteps_new reference before name) href hfor
        hafter with ⟨-, hlast⟩ | ⟨hempty, -⟩
      · rw [hsteps, runSteps_append, hlast]
      · have htext : (Step.save d).HasText := h.hasText _ (by simp [hsteps])
        exact absurd hempty htext
    rw [hcarried (d.carriedFrom_of_source hfor hsource (sameFolded_refl _)),
      hdrawn.eq_cons_othersAt]

/-- **Every key has the same translations in the end.** -/
theorem Orderly.translationsAt_again {a : Address} {n : KeyMatch}
    (hn : (runSteps (runSteps reference steps (.new name)) steps (.new name)).locate? a = some n) :
    (runSteps (runSteps reference steps (.new name)) steps (.new name)).translationsAt a =
      (runSteps reference steps (.new name)).translationsAt a := by
  have hO := wellFormed_runSteps_new reference steps name
  by_cases hdecl : Declares steps a.key
  · exact h.translationsAt_again_of_declares href name hdecl
  · have hcopied := isCopied_runSteps (Project.wellFormed_new name) hO h.hasText hdecl
      (isCopied_new _ name a.key)
    rcases hcopied a (sameFolded_refl _) with hmissing | ⟨m, hm, hsame, htranslations⟩
    · exact absurd (hn.symm.trans hmissing) (Option.some_ne_none n)
    · rw [htranslations, ← Project.translationsAt_congr _ hsame,
        Project.translationsAt_of_locate? (hO.locate?_of_findKey? hm).2]

/-- **The second run gives the output of the first.** -/
theorem Orderly.runSteps_again :
    runSteps (runSteps reference steps (.new name)) steps (.new name) =
      runSteps reference steps (.new name) := by
  have halike := h.alike_runSteps href name (List.append_nil steps).symm
  refine (halike.eq (wellFormed_runSteps_new _ steps name)
    (wellFormed_runSteps_new _ steps name) ?_).symm
  intro a m n hm hn
  have hsame := h.translationsAt_again href name hn
  rw [Project.translationsAt_of_locate? hm, Project.translationsAt_of_locate? hn] at hsame
  exact hsame.symm

end Orderly

/-! ## The same reports -/

section Orderly

variable {steps : List Step} (h : Orderly steps) (href : reference.WellFormed) (name : String)
include h href

/-- Both runs report the same on a step. -/
theorem Orderly.agrees_report {before after : List Step} {s : Step}
    (hsteps : steps = before ++ s :: after) :
    (s.report reference (runSteps reference before (.new name))).Agrees
      (s.report (runSteps reference steps (.new name))
        (runSteps (runSteps reference steps (.new name)) before (.new name))) := by
  cases s with
  | save d => exact ⟨rfl, rfl, rfl⟩
  | use u =>
    have halike := h.alike_runSteps href name hsteps
    unfold Step.report resolveOne
    cases h.sameUse href name hsteps (wellFormed_runSteps_new _ before name) halike with
    | known hp hq =>
      simp only [hp, hq]
      exact .refl _
    | orphan hp hq hR hO =>
      simp only [hp, hq, hR, hO]
      exact .refl _
    | copied hp hq hR hO =>
      simp only [hp, hq, hR, hO]
      exact .refl _

/-- **Both runs report the same** on steps that come after equally many others. -/
theorem Orderly.agrees_reportSteps {before between after : List Step}
    (hsteps : steps = before ++ between ++ after) :
    (reportSteps reference between (runSteps reference before (.new name))).Agrees
      (reportSteps (runSteps reference steps (.new name)) between
        (runSteps (runSteps reference steps (.new name)) before (.new name))) := by
  induction between generalizing before with
  | nil => exact .refl _
  | cons s between ih =>
    have hcut : steps = before ++ s :: (between ++ after) := by simp [hsteps]
    have hrest := @ih (before ++ [s]) (by simp [hsteps])
    rw [runSteps_concat, runSteps_concat] at hrest
    exact (h.agrees_report href name hcut).add hrest

/-- Both runs report the same on a script. -/
theorem Orderly.agrees_extract {before after : List Step} {script : String × String}
    (hsteps : steps = before ++ stepsOf script ++ after) :
    (extract reference script.1 script.2 (runSteps reference before (.new name))).2.Agrees
      (extract (runSteps reference steps (.new name)) script.1 script.2
        (runSteps (runSteps reference steps (.new name)) before (.new name))).2 := by
  have hsaves : steps = before ++ (scan script.1 script.2.toList).map .save ++
      ((identifierUses script.2.toList).map .use ++ after) := by
    simp [hsteps, stepsOf]
  have huses : steps = before ++ (scan script.1 script.2.toList).map .save ++
      (identifierUses script.2.toList).map .use ++ after := by
    simp [hsteps, stepsOf]
  rw [snd_extract, snd_extract, ← runSteps_append, ← runSteps_append]
  exact (h.agrees_reportSteps href name hsaves).add (h.agrees_reportSteps href name huses)

end Orderly

/-! ## Scripts -/

/-- An identifier that a script uses, and that a later script declares, is declared
    by this script or an earlier one. -/
def DeclaredInTime (scripts : List (String × String)) : Prop :=
  ∀ before s after, scripts = before ++ s :: after → ∀ u ∈ identifierUses s.2.toList,
    (∃ d ∈ directivesOf after, sameFolded u.identifier d.key = true) →
      ∃ d ∈ directivesOf (before ++ [s]), sameFolded u.identifier d.key = true

theorem append_eq_append_cons {α : Type} {xs ys as bs : List α} {b : α}
    (h : xs ++ ys = as ++ b :: bs) :
    (∃ cs, as = xs ++ cs ∧ ys = cs ++ b :: bs) ∨ ∃ cs, xs = as ++ b :: cs ∧ bs = cs ++ ys := by
  rcases List.append_eq_append_iff.1 h with h | ⟨cs, hxs, hcs⟩
  · exact .inl h
  · cases cs with
    | nil => exact .inl ⟨[], by simpa using hxs.symm, by simpa using hcs.symm⟩
    | cons c cs =>
      obtain ⟨rfl, rfl⟩ := List.cons.inj hcs
      exact .inr ⟨cs, hxs, rfl⟩

/-- In a script all directives come before the use of an identifier. -/
theorem stepsOf_eq_append_use {script : String × String} {before after : List Step}
    {u : IdentifierUse} (hcut : stepsOf script = before ++ .use u :: after) :
    u ∈ identifierUses script.2.toList ∧
      (∀ d ∈ scan script.1 script.2.toList, .save d ∈ before) ∧ ∀ d, .save d ∉ after := by
  rcases append_eq_append_cons hcut with ⟨cs, rfl, huses⟩ | ⟨cs, hsaves, -⟩
  · refine ⟨?_, fun d hd => ?_, fun d hd => ?_⟩
    · have hu : .use u ∈ (identifierUses script.2.toList).map Step.use := by simp [huses]
      obtain ⟨v, hv, hvu⟩ := List.mem_map.1 hu
      exact Step.use.inj hvu ▸ hv
    · exact List.mem_append_left _ (List.mem_map_of_mem hd)
    · have hd : .save d ∈ (identifierUses script.2.toList).map Step.use := by simp [huses, hd]
      obtain ⟨v, -, hv⟩ := List.mem_map.1 hd
      cases hv
  · have hu : .use u ∈ (scan script.1 script.2.toList).map Step.save := by simp [hsaves]
    obtain ⟨d, -, hd⟩ := List.mem_map.1 hu
    cases hd

/-- The use of an identifier among the steps of scripts is one of some script. -/
theorem exists_script_of_use {scripts : List (String × String)} {before after : List Step}
    {u : IdentifierUse} (hcut : scripts.flatMap stepsOf = before ++ .use u :: after) :
    ∃ first s later, scripts = first ++ s :: later ∧ u ∈ identifierUses s.2.toList ∧
      (∀ d ∈ directivesOf (first ++ [s]), .save d ∈ before) ∧
      ∀ d, .save d ∈ after → d ∈ directivesOf later := by
  induction scripts generalizing before with
  | nil => exact absurd hcut.symm (List.append_ne_nil_of_right_ne_nil _ (List.cons_ne_nil _ _))
  | cons s scripts ih =>
    rw [List.flatMap_cons] at hcut
    rcases append_eq_append_cons hcut with ⟨cs, rfl, hrest⟩ | ⟨cs, hscript, rfl⟩
    · obtain ⟨first, s', later, rfl, hu, hbefore, hafter⟩ := ih hrest
      refine ⟨s :: first, s', later, rfl, hu, fun d hd => ?_, hafter⟩
      rw [List.cons_append, directivesOf, List.flatMap_cons] at hd
      rcases List.mem_append.1 hd with hd | hd
      · exact List.mem_append_left _ (List.mem_append_left _ (List.mem_map_of_mem hd))
      · exact List.mem_append_right _ (hbefore d hd)
    · obtain ⟨hu, hbefore, hafter⟩ := stepsOf_eq_append_use hscript
      refine ⟨[], s, scripts, rfl, hu, fun d hd => ?_, fun d hd => ?_⟩
      · exact hbefore d (by simpa [directivesOf] using hd)
      · rcases List.mem_append.1 hd with hd | hd
        · exact absurd hd (hafter d)
        · exact mem_directivesOf.2 hd

/-- **The steps of scripts are orderly** if their directives have texts and are
    declared in time. -/
theorem orderly_flatMap_stepsOf {scripts : List (String × String)}
    (htexts : ∀ d ∈ directivesOf scripts, d.text ≠ "") (hids : DeclaredInTime scripts) :
    Orderly (scripts.flatMap stepsOf) := by
  constructor
  case hasText =>
    intro s hs
    cases s with
    | save d => exact htexts d (mem_directivesOf.2 hs)
    | use u => trivial
  case in_time =>
    rintro before u after hcut ⟨d, hd, hid⟩
    obtain ⟨first, s, later, hscripts, hu, hbefore, hafter⟩ := exists_script_of_use hcut
    obtain ⟨e, he, heid⟩ := hids first s later hscripts u hu
      ⟨d, hafter d hd, by rwa [sameFolded_comm]⟩
    exact ⟨e, hbefore e he, by rwa [sameFolded_comm]⟩

theorem extractAll_concat (reference : Project) (scripts : List (String × String))
    (s : String × String) (output : Project) :
    extractAll reference (scripts ++ [s]) output =
      (extract reference s.1 s.2 (extractAll reference scripts output)).1 := by
  rw [extractAll, List.foldl_append]
  rfl

/-- Both runs report the same on every script. -/
theorem forall₂_agrees_extractReports (href : reference.WellFormed) (name : String)
    {scripts : List (String × String)} (h : Orderly (scripts.flatMap stepsOf))
    {before after : List (String × String)} (hscripts : scripts = before ++ after) :
    List.Forall₂ Report.Agrees
      (extractReports reference after (extractAll reference before (.new name)))
      (extractReports (extractAll reference scripts (.new name)) after
        (extractAll (extractAll reference scripts (.new name)) before (.new name))) := by
  induction after generalizing before with
  | nil => exact .nil
  | cons s after ih =>
    have hsteps : scripts.flatMap stepsOf =
        before.flatMap stepsOf ++ stepsOf s ++ after.flatMap stepsOf := by
      simp [hscripts]
    have hreport := h.agrees_extract href name hsteps
    simp only [← extractAll_eq_runSteps] at hreport
    have hrest := @ih (before ++ [s]) (by simp [hscripts])
    rw [extractAll_concat, extractAll_concat] at hrest
    exact .cons hreport hrest

/-- **Extraction again**, with the output as the reference, gives the same output
    and, script by script, the same report.  Directives have texts, and keys are
    declared in time. -/
theorem extractAll_again (href : reference.Reachable) (name : String)
    (scripts : List (String × String)) (htexts : ∀ d ∈ directivesOf scripts, d.text ≠ "")
    (hids : DeclaredInTime scripts) :
    extractAll (extractAll reference scripts (.new name)) scripts (.new name) =
        extractAll reference scripts (.new name) ∧
      List.Forall₂ Report.Agrees (extractReports reference scripts (.new name))
        (extractReports (extractAll reference scripts (.new name)) scripts (.new name)) := by
  have h := orderly_flatMap_stepsOf htexts hids
  refine ⟨?_, forall₂_agrees_extractReports href.wellFormed name h
    (List.nil_append scripts).symm⟩
  have hagain := h.runSteps_again href.wellFormed name
  simpa only [← extractAll_eq_runSteps] using hagain

/-- A script that copies a key, and one that declares another. -/
theorem extractAll_again_greeting :
    extractAll
        (extractAll greeting
          [("hints", "hint localize \"str_greet\";\n"),
            ("init", "// TR Main intro STR_leave \"Bye\"\n")] (.new "Mission"))
        [("hints", "hint localize \"str_greet\";\n"),
          ("init", "// TR Main intro STR_leave \"Bye\"\n")] (.new "Mission") =
      extractAll greeting
        [("hints", "hint localize \"str_greet\";\n"),
          ("init", "// TR Main intro STR_leave \"Bye\"\n")] (.new "Mission") := by
  refine (extractAll_again reachable_greeting "Mission" _ ?_ ?_).1
  · decide +kernel
  · intro before s after hscripts u hu hlater
    rcases List.cons_eq_append_iff.1 hscripts with ⟨rfl, heq⟩ | ⟨before, rfl, heq⟩
    · obtain ⟨rfl, rfl⟩ := List.cons.inj heq
      have huses : identifierUses "hint localize \"str_greet\";\n".toList = [⟨1, "str_greet"⟩] := by
        decide +kernel
      rw [huses, List.mem_singleton] at hu
      subst hu
      revert hlater
      decide +kernel
    · obtain ⟨rfl, hone⟩ | ⟨before, rfl, hnil⟩ := List.cons_eq_append_iff.1 heq
      · obtain ⟨rfl, rfl⟩ := List.cons.inj hone
        obtain ⟨d, hd, -⟩ := hlater
        cases hd
      · simp at hnil

end MissionText
