/-
  What the steps of an extraction make of one key.

  The steps are orderly: directives have texts, and an identifier that is used
  before a directive declares it is one that an earlier directive declares, too.
  Then every id is declared or copied, and never both.

  * `isCopied_runSteps`: a key of an id that no directive declares is one of the
    reference, with all its translations.
  * `Orderly.eq_save_of_written`: a key that some directive declares is never
    copied.
  * `Orderly.translationsAt_runSteps`: such a key has the source text of the last
    directive for it, and all translations of the reference or none.
-/
import Mathlib.Data.List.Induction
import MissionText.Proofs.Script.Stale
import MissionText.Proofs.Script.Writes

namespace MissionText

variable {reference output : Project}

/-! ## Orderly steps -/

/-- The step is no directive without a text. -/
def Step.HasText : Step → Prop
  | save d => d.text ≠ ""
  | use _ => True

/-- Some directive declares a key of the id. -/
def Declares (steps : List Step) (id : String) : Prop :=
  ∃ d, .save d ∈ steps ∧ sameFolded d.key id = true

/-- Directives have texts, and no identifier is used before the first directive
    that declares it. -/
structure Orderly (steps : List Step) : Prop where
  hasText : ∀ s ∈ steps, s.HasText
  in_time : ∀ before u after, steps = before ++ .use u :: after →
    Declares after u.identifier → Declares before u.identifier

theorem Declares.congr {steps : List Step} {id id' : String} (h : Declares steps id)
    (hid : sameFolded id id' = true) : Declares steps id' := by
  obtain ⟨d, hd, hd'⟩ := h
  exact ⟨d, hd, sameFolded_trans hd' hid⟩

theorem runSteps_concat (reference : Project) (steps : List Step) (s : Step) (output : Project) :
    runSteps reference (steps ++ [s]) output =
      s.apply reference (runSteps reference steps output) := by
  rw [runSteps_append]
  rfl

/-! ## One step -/

theorem Directive.hasTexts_written (href : reference.WellFormed) {d : Directive}
    (hd : d.text ≠ "") : (d.written reference).HasTexts := by
  refine ⟨List.cons_ne_nil _ _, fun t ht => ?_⟩
  rcases List.mem_cons.1 ht with rfl | ht
  · exact hd
  · exact (d.mem_carriedFrom href ht).1

theorem Step.hasTexts_written (href : reference.WellFormed) {s : Step} (hs : s.HasText)
    {m : KeyMatch} (hm : s.written? reference output = some m) : m.HasTexts := by
  cases s with
  | save d =>
    obtain rfl := Option.some.inj hm
    exact d.hasTexts_written href hs
  | use u =>
    obtain ⟨-, hm⟩ := IdentifierUse.written?_eq_some_iff.1 hm
    exact (href.key_of_locate? (href.locate?_of_findKey? hm).2).2

/-- **The translations of a key after a step**: those that the step writes there
    are set. -/
theorem translationsAt_apply (ho : output.WellFormed) (href : reference.WellFormed) {s : Step}
    (hs : s.HasText) {m : KeyMatch} (hm : s.written? reference output = some m) (a : Address) :
    (s.apply reference output).translationsAt a =
      if m.place.sameKey a then withTexts m.key.translations (output.translationsAt a)
      else output.translationsAt a := by
  rw [s.apply_eq, hm, Option.map_some, Option.getD_some,
    Project.translationsAt_setAll_writes ho (Step.hasTexts_written href hs hm)]

theorem apply_of_written_eq_none {s : Step} (hm : s.written? reference output = none) :
    s.apply reference output = output := by
  rw [s.apply_eq, hm]
  rfl

/-- A key that is there keeps its place. -/
theorem exists_locate?_apply (ho : output.WellFormed) (href : reference.WellFormed) {s : Step}
    (hs : s.HasText) {a : Address} {n : KeyMatch} (hn : output.locate? a = some n) :
    ∃ n', (s.apply reference output).locate? a = some n' ∧ n'.place = n.place := by
  rcases hm : s.written? reference output with _ | m
  · rw [apply_of_written_eq_none hm]
    exact ⟨n, hn, rfl⟩
  · rw [s.apply_eq, hm]
    exact Project.exists_locate?_setAll_writes ho (Step.hasTexts_written href hs hm) hn

/-- A key that is written is there, at the place where it was to be changed. -/
theorem locate?_apply_of_written (ho : output.WellFormed) (href : reference.WellFormed) {s : Step}
    (hs : s.HasText) {m : KeyMatch} (hm : s.written? reference output = some m) :
    ∃ n, (s.apply reference output).locate? m.place = some n ∧
      n.place = (output.target m.place).place := by
  have hself : m.place.sameKey m.place = true := by simp [Address.sameKey]
  refine ⟨(output.target m.place).edit (·.setAll m.key.translations), ?_, ?_⟩
  · rw [s.apply_eq, hm, Option.map_some, Option.getD_some,
      Project.locate?_setAll_writes ho (Step.hasTexts_written href hs hm), if_pos hself]
  · simp only [KeyMatch.place, KeyMatch.edit, Key.id_setAll]

/-! ## Declared keys stay -/

/-- A key that is there keeps its place in a run. -/
theorem exists_locate?_runSteps (ho : output.WellFormed) (href : reference.WellFormed)
    {steps : List Step} (hs : ∀ s ∈ steps, s.HasText) {a : Address} {n : KeyMatch}
    (hn : output.locate? a = some n) :
    ∃ n', (runSteps reference steps output).locate? a = some n' ∧ n'.place = n.place := by
  induction steps generalizing output n with
  | nil => exact ⟨n, hn, rfl⟩
  | cons s steps ih =>
    obtain ⟨hfirst, hrest⟩ := List.forall_mem_cons.1 hs
    obtain ⟨n₁, hn₁, hplace₁⟩ := exists_locate?_apply ho href hfirst hn
    obtain ⟨n₂, hn₂, hplace₂⟩ := ih (s.wellFormed_apply ho) hrest hn₁
    exact ⟨n₂, hn₂, hplace₂.trans hplace₁⟩

/-- **A declared id is known** from then on. -/
theorem Declares.findKey?_ne_none (ho : output.WellFormed) (href : reference.WellFormed)
    {steps : List Step} (hs : ∀ s ∈ steps, s.HasText) {id : String} (h : Declares steps id) :
    (runSteps reference steps output).findKey? id ≠ none := by
  obtain ⟨d, hd, hid⟩ := h
  obtain ⟨before, after, rfl⟩ := List.append_of_mem hd
  have hwell : (runSteps reference before output).WellFormed := wellFormed_runSteps ho before
  obtain ⟨n, hn, -⟩ := locate?_apply_of_written hwell href (hs _ hd) rfl
  have hafter : ∀ s ∈ after, s.HasText := fun s hs' => hs s (by simp [hs'])
  obtain ⟨n', hn', -⟩ := exists_locate?_runSteps (Step.wellFormed_apply hwell _) href hafter hn
  rw [runSteps_append]
  intro hnone
  have hrun : (runSteps reference (.save d :: after) (runSteps reference before output)).WellFormed :=
    wellFormed_runSteps hwell _
  have hmissing := hrun.findKey?_eq_none_iff.1 hnone (d.written reference).place hid
  exact Option.some_ne_none n' (hn'.symm.trans hmissing)

/-! ## Copied keys -/

/-- Every key of the id is the one of the reference, with its translations. -/
def IsCopied (reference output : Project) (id : String) : Prop :=
  ∀ a : Address, sameFolded a.key id = true → output.locate? a = none ∨
    ∃ m, reference.findKey? id = some m ∧ m.place.sameKey a = true ∧
      output.translationsAt a = m.key.translations

theorem isCopied_new (reference : Project) (name id : String) :
    IsCopied reference (.new name) id :=
  fun _ _ => .inl rfl

theorem isCopied_apply (ho : output.WellFormed) (href : reference.WellFormed) {s : Step}
    {id : String} (hs : ∀ d, s = .save d → sameFolded d.key id = false) (htext : s.HasText)
    (h : IsCopied reference output id) :
    IsCopied reference (s.apply reference output) id := by
  intro a ha
  rcases hm : s.written? reference output with _ | m
  · rw [apply_of_written_eq_none hm]
    exact h a ha
  · by_cases hsame : m.place.sameKey a = true
    · have hkey := Address.key_of_sameKey hsame
      rw [KeyMatch.key_place] at hkey
      cases s with
      | save d =>
        obtain rfl := Option.some.inj hm
        have hd : sameFolded (d.written reference).key.id id = false := hs d rfl
        rw [sameFolded_trans hkey ha] at hd
        cases hd
      | use u =>
        obtain ⟨hnone, hfound⟩ := IdentifierUse.written?_eq_some_iff.1 hm
        obtain ⟨hid, hplace⟩ := href.locate?_of_findKey? hfound
        right
        refine ⟨m, ?_, hsame, ?_⟩
        · rw [← reference.findKey?_congr (sameFolded_trans hkey ha),
            reference.findKey?_congr hid, hfound]
        · have hmissing : output.locate? a = none := by
            refine Project.locate?_of_findKey?_eq_none ?_
            rw [← output.findKey?_congr hkey, output.findKey?_congr hid, hnone]
          rw [translationsAt_apply ho href htext hm, if_pos hsame,
            Project.translationsAt_of_missing hmissing,
            (href.key_of_locate? hplace).1.withTexts_nil]
    · have hkept : (s.apply reference output).locate? a = output.locate? a := by
        rw [s.apply_eq, hm, Option.map_some, Option.getD_some,
          Project.locate?_setAll_writes ho (Step.hasTexts_written href htext hm), if_neg hsame]
      rw [hkept, Project.translationsAt_eq, hkept, ← Project.translationsAt_eq]
      exact h a ha

/-- **A key that no directive declares** is copied. -/
theorem isCopied_runSteps (ho : output.WellFormed) (href : reference.WellFormed)
    {steps : List Step} (hs : ∀ s ∈ steps, s.HasText) {id : String} (hid : ¬ Declares steps id)
    (h : IsCopied reference output id) :
    IsCopied reference (runSteps reference steps output) id := by
  induction steps generalizing output with
  | nil => exact h
  | cons s steps ih =>
    have hother : ∀ d, s = .save d → sameFolded d.key id = false := by
      rintro d rfl
      by_contra hd
      exact hid ⟨d, List.mem_cons_self, by simpa using hd⟩
    have hundeclared : ¬ Declares steps id := fun ⟨d, hd, hd'⟩ =>
      hid ⟨d, List.mem_cons_of_mem _ hd, hd'⟩
    obtain ⟨hfirst, hrest⟩ := List.forall_mem_cons.1 hs
    exact ih (s.wellFormed_apply ho) hrest hundeclared (isCopied_apply ho href hother hfirst h)

/-! ## Declared keys -/

/-- The translations of a key but the source text. -/
def Project.othersAt (p : Project) (a : Address) : List Translation :=
  (p.translationsAt a).filter (!·.isOriginal)

/-- A source text, and with it all other translations of the reference or none. -/
def Drawn (reference : Project) (a : Address) (text : String) (ts : List Translation) : Prop :=
  ts = [⟨originalTag, text⟩] ∨ ts = ⟨originalTag, text⟩ :: reference.othersAt a

theorem Project.language_of_mem_othersAt {p : Project} {a : Address} {t : Translation}
    (ht : t ∈ p.othersAt a) : sameFolded originalTag t.language = false := by
  rw [sameFolded_comm, ← t.isOriginal_eq]
  simpa using (List.mem_filter.1 ht).2

/-- What a directive carries over for a key is all or nothing. -/
theorem Directive.carriedFrom_eq (reference : Project) {d : Directive} {a : Address}
    (hfor : d.IsFor a.package a.container a.key) :
    d.carriedFrom reference = [] ∨ d.carriedFrom reference = reference.othersAt a := by
  have hlist := reference.translationsAt_congr (a := d.address originalTag) (b := a) hfor
  unfold carriedFrom
  split
  · exact .inl rfl
  · split
    · right
      rw [Project.othersAt, ← hlist]
      rfl
    · exact .inl rfl

/-- An unchanged source text carries all other translations over. -/
theorem Directive.carriedFrom_of_source {d : Directive} {a : Address}
    (hfor : d.IsFor a.package a.container a.key) {saved : String}
    (hsource : reference.sourceAt a.package a.container a.key = some saved)
    (hsame : sameFolded saved d.text = true) :
    d.carriedFrom reference = reference.othersAt a := by
  have hlist := reference.translationsAt_congr (a := d.address originalTag) (b := a) hfor
  rw [← hfor.sourceAt_eq, Project.sourceAt, Project.textAt_eq_translation?] at hsource
  obtain ⟨t, ht, rfl⟩ := Option.map_eq_some_iff.1 hsource
  have ht : reference.translation? (d.address originalTag) = some t := ht
  simp only [carriedFrom, ht, hsame, if_true]
  rw [Project.othersAt, ← hlist]
  rfl

/-- A source text takes the place of the old one. -/
theorem withTexts_source {text : String} (ht : text ≠ "") (old : String)
    (rest : List Translation) :
    withTexts [⟨originalTag, text⟩] [] = [⟨originalTag, text⟩] ∧
      withTexts [⟨originalTag, text⟩] (⟨originalTag, old⟩ :: rest) =
        ⟨originalTag, text⟩ :: rest := by
  have hname : sameFolded (Named.name (⟨originalTag, old⟩ : Translation)) originalTag = true :=
    sameFolded_refl originalTag
  simp [withTexts, Siblings.edit, Siblings.alter, hname, ht]

/-- A source text that is set, alone or with all other translations of the
    reference. -/
theorem withTexts_drawn (href : reference.WellFormed) {a : Address} {text : String}
    (htext : text ≠ "") {ts : List Translation} (hts : ts = [] ∨ ∃ old, Drawn reference a old ts) :
    Drawn reference a text (withTexts [⟨originalTag, text⟩] ts) ∧
      withTexts (⟨originalTag, text⟩ :: reference.othersAt a) ts =
        ⟨originalTag, text⟩ :: reference.othersAt a := by
  obtain ⟨hdistinct, hfull⟩ := href.key_translationsAt a
  have hfull : ∀ t ∈ reference.othersAt a, t.text ≠ "" := fun t ht =>
    hfull t (List.mem_filter.1 ht).1
  have hothers : Siblings.Distinct (reference.othersAt a) := hdistinct.filter _
  have hsource : ∀ x ∈ [(⟨originalTag, text⟩ : Translation)], ∀ t ∈ reference.othersAt a,
      sameFolded x.language t.language = false := by
    intro x hx t ht
    rw [List.mem_singleton.1 hx]
    exact Project.language_of_mem_othersAt ht
  have hnew := withTexts_of_new hfull hothers _ hsource
  have hold := withTexts_of_old hfull hothers _ hsource
  have hsplit : withTexts (⟨originalTag, text⟩ :: reference.othersAt a) ts =
      withTexts (reference.othersAt a) (withTexts [⟨originalTag, text⟩] ts) := rfl
  rw [hsplit]
  rcases hts with rfl | ⟨old, rfl | rfl⟩
  · rw [(withTexts_source htext "" []).1]
    exact ⟨.inl rfl, hnew⟩
  · rw [(withTexts_source htext old []).2]
    exact ⟨.inl rfl, hnew⟩
  · rw [(withTexts_source htext old (reference.othersAt a)).2]
    exact ⟨.inr rfl, hold⟩

/-- **A directive** gives its key its source text, and with it all other
    translations of the reference or none. -/
theorem drawn_save (ho : output.WellFormed) (href : reference.WellFormed) {d : Directive}
    {a : Address} (hfor : d.IsFor a.package a.container a.key) (htext : d.text ≠ "")
    (hts : output.translationsAt a = [] ∨ ∃ old, Drawn reference a old (output.translationsAt a)) :
    Drawn reference a d.text (((Step.save d).apply reference output).translationsAt a) ∧
      (d.carriedFrom reference = reference.othersAt a →
        ((Step.save d).apply reference output).translationsAt a =
          ⟨originalTag, d.text⟩ :: reference.othersAt a) := by
  have hsame : (d.written reference).place.sameKey a = true := hfor
  have hsave : (Step.save d).HasText := htext
  rw [translationsAt_apply ho href hsave rfl, if_pos hsame, d.translations_written]
  obtain ⟨halone, hall⟩ := withTexts_drawn href htext hts
  refine ⟨?_, fun hcarried => by rw [hcarried, hall]⟩
  rcases Directive.carriedFrom_eq reference hfor with hcarried | hcarried
  · rw [hcarried]
    exact halone
  · rw [hcarried]
    exact .inr hall

/-! ## Orderly runs -/

section Orderly

variable {steps : List Step} (h : Orderly steps) (href : reference.WellFormed) (name : String)
include h href

/-- An identifier that is used before it is known is never declared. -/
theorem Orderly.not_declares {before after : List Step} {u : IdentifierUse}
    (hsteps : steps = before ++ .use u :: after)
    (hnone : (runSteps reference before (.new name)).findKey? u.identifier = none) :
    ¬ Declares steps u.identifier := by
  rintro ⟨d, hd, hid⟩
  have htexts : ∀ s ∈ before, s.HasText := fun s hs =>
    h.hasText s (hsteps ▸ List.mem_append_left _ hs)
  have hbefore : Declares before u.identifier := by
    rw [hsteps] at hd
    rcases List.mem_append.1 hd with hd | hd
    · exact ⟨d, hd, hid⟩
    · rcases List.mem_cons.1 hd with hd | hd
      · cases hd
      · exact h.in_time before u after hsteps ⟨d, hd, hid⟩
  exact hbefore.findKey?_ne_none (Project.wellFormed_new name) href htexts hnone

/-- **A key that some directive declares is never copied.** -/
theorem Orderly.eq_save_of_written {before after : List Step} {s : Step}
    (hsteps : steps = before ++ s :: after) {m : KeyMatch}
    (hm : s.written? reference (runSteps reference before (.new name)) = some m)
    (hdecl : Declares steps m.key.id) : ∃ d, s = .save d := by
  cases s with
  | save d => exact ⟨d, rfl⟩
  | use u =>
    obtain ⟨hnone, hm⟩ := IdentifierUse.written?_eq_some_iff.1 hm
    exact absurd (hdecl.congr (href.locate?_of_findKey? hm).1)
      (h.not_declares href name hsteps hnone)

/-- A declared key is changed by the directives for it only. -/
theorem Orderly.translationsAt_apply {a : Address} (hdecl : Declares steps a.key)
    {before after : List Step} {s : Step} (hsteps : steps = before ++ s :: after)
    (hs : ∀ d, s = .save d → ¬ d.IsFor a.package a.container a.key) :
    (s.apply reference (runSteps reference before (.new name))).translationsAt a =
      (runSteps reference before (.new name)).translationsAt a := by
  have hwell := wellFormed_runSteps_new reference before name
  have htext : s.HasText := h.hasText s (by simp [hsteps])
  rcases hm : s.written? reference (runSteps reference before (.new name)) with _ | m
  · rw [apply_of_written_eq_none hm]
  · rw [MissionText.translationsAt_apply hwell href htext hm, if_neg]
    intro hsame
    have hkey := Address.key_of_sameKey hsame
    rw [KeyMatch.key_place, sameFolded_comm] at hkey
    obtain ⟨d, rfl⟩ := h.eq_save_of_written href name hsteps hm (hdecl.congr hkey)
    obtain rfl := Option.some.inj hm
    exact hs d rfl hsame

/-- **A declared key has nothing**, or a source text and with it all other
    translations of the reference or none. -/
theorem Orderly.drawn_runSteps {a : Address} (hdecl : Declares steps a.key)
    {before after : List Step} (hsteps : steps = before ++ after) :
    (runSteps reference before (.new name)).translationsAt a = [] ∨
      ∃ text, Drawn reference a text
        ((runSteps reference before (.new name)).translationsAt a) := by
  induction before using List.reverseRecOn generalizing after with
  | nil => exact .inl rfl
  | append_singleton before s ih =>
    rw [List.append_assoc, List.singleton_append] at hsteps
    rw [runSteps_concat]
    by_cases hs : ∃ d, s = .save d ∧ d.IsFor a.package a.container a.key
    · obtain ⟨d, rfl, hfor⟩ := hs
      have hwell := wellFormed_runSteps_new reference before name
      have htext : (Step.save d).HasText := h.hasText _ (by simp [hsteps])
      exact .inr ⟨d.text, (drawn_save hwell href hfor htext (ih hsteps)).1⟩
    · rw [h.translationsAt_apply href name hdecl hsteps fun d hd hfor => hs ⟨d, hd, hfor⟩]
      exact ih hsteps

/-- A declared key keeps its translations while there is no directive for it. -/
theorem Orderly.translationsAt_of_noneFor {a : Address} (hdecl : Declares steps a.key)
    {before between after : List Step} (hsteps : steps = before ++ between ++ after)
    (hnone : NoneFor a.package a.container a.key between) :
    (runSteps reference (before ++ between) (.new name)).translationsAt a =
      (runSteps reference before (.new name)).translationsAt a := by
  induction between using List.reverseRecOn generalizing after with
  | nil => rw [List.append_nil]
  | append_singleton between s ih =>
    have hcut : steps = (before ++ between) ++ s :: after := by simp [hsteps]
    rw [← List.append_assoc, runSteps_concat,
      h.translationsAt_apply href name hdecl hcut fun d hd => hnone d (by simp [hd])]
    exact ih hcut fun d hd => hnone d (List.mem_append_left _ hd)

/-- **The translations after the last directive for a key**: its source text, and
    with it all other translations of the reference, if the directive carries them
    over. -/
theorem Orderly.translationsAt_runSteps {a : Address} {before after : List Step} {d : Directive}
    (hsteps : steps = before ++ .save d :: after) (hfor : d.IsFor a.package a.container a.key)
    (hafter : NoneFor a.package a.container a.key after) :
    Drawn reference a d.text ((runSteps reference steps (.new name)).translationsAt a) ∧
      (d.carriedFrom reference = reference.othersAt a →
        (runSteps reference steps (.new name)).translationsAt a =
          ⟨originalTag, d.text⟩ :: reference.othersAt a) := by
  have hd : .save d ∈ steps := by simp [hsteps]
  have hdecl : Declares steps a.key := ⟨d, hd, Address.key_of_sameKey (a := d.address originalTag)
    (b := a) hfor⟩
  have hcut : steps = before ++ [.save d] ++ after := by simp [hsteps]
  have hkept := h.translationsAt_of_noneFor href name hdecl
    (hcut.trans (List.append_nil _).symm) hafter
  have hwell := wellFormed_runSteps_new reference before name
  rw [hcut, hkept, runSteps_concat]
  exact drawn_save hwell href hfor (h.hasText _ hd) (h.drawn_runSteps href name hdecl hsteps)

end Orderly

end MissionText
