/-
  The identifiers that a script uses, looked up.

  * `Project.Knows`: a catalog has a key of an id, in any case.
  * `knows_resolveOne` is the step: the use of an identifier that the reference
    knows makes that id known, and no other one.  `locate?_resolveOne` says which
    key stands where after it.
  * `knows_resolveAll`, `orphans_resolveAll`, `resolved_resolveAll` and
    `locate?_resolveAll` are the run, by induction on the uses.
  * `resolvesAll_extract`: so what is known before the identifiers are looked up
    decides on each of them, whatever is copied for the others.
-/
import Mathlib.Data.Finset.Card
import MissionText.Proofs.Script.Reports
import MissionText.Proofs.Script.Stale
import MissionText.Proofs.Script.Writes

namespace MissionText

/-! ## Known ids -/

/-- The project has a key of an id, in any case. -/
def Project.Knows (p : Project) (id : String) : Prop := ∃ k ∈ p.keys, sameFolded k.id id = true

instance (p : Project) (id : String) : Decidable (p.Knows id) :=
  List.decidableBEx (fun k : Key => sameFolded k.id id = true) p.keys

theorem Project.findKey?_eq_none_iff_not_knows {p : Project} {id : String} :
    p.findKey? id = none ↔ ¬ p.Knows id := by
  have hname (k : Key) : Named.name k = k.id := rfl
  simp only [findKey?, Package.findKey?, List.findSome?_eq_none_iff, Option.map_eq_none_iff,
    Container.key?, Siblings.find?_eq_none_iff, Knows, mem_keys, hname]
  constructor
  · rintro hnone ⟨k, ⟨g, hg, c, hc, hk⟩, hid⟩
    rw [hnone g hg c hc k hk] at hid
    cases hid
  · intro hno g hg c hc k hk
    by_contra hid
    exact hno ⟨k, ⟨g, hg, c, hc, hk⟩, by simpa using hid⟩

theorem Project.knows_congr (p : Project) {id id' : String} (h : sameFolded id id' = true) :
    p.Knows id ↔ p.Knows id' := by
  simp only [Knows, sameFolded_right h]

/-- A project knows the ids of the keys at its places. -/
theorem Project.WellFormed.knows_iff {p : Project} (h : p.WellFormed) {id : String} :
    p.Knows id ↔ ∃ a : Address, sameFolded a.key id = true ∧ (p.locate? a).isSome = true := by
  rw [← not_iff_not, ← findKey?_eq_none_iff_not_knows, h.findKey?_eq_none_iff]
  simp only [not_exists, not_and, Bool.not_eq_true, Option.isSome_eq_false_iff,
    Option.isNone_iff_eq_none]

/-! ## One use -/

/-- A key that is found, as a copy of it stands in a project: with the names that its
    package and its container have there, if they are there already. -/
def KeyMatch.copiedTo (p : Project) (m : KeyMatch) : KeyMatch :=
  ⟨(p.target m.place).package, (p.target m.place).container, m.key⟩

section Step

variable {reference output : Project}

theorem IdentifierUse.written?_eq_none_iff {u : IdentifierUse} :
    u.written? reference output = none ↔
      output.Knows u.identifier ∨ ¬ reference.Knows u.identifier := by
  rw [← Project.findKey?_eq_none_iff_not_knows, ← not_not (a := output.Knows u.identifier),
    ← Project.findKey?_eq_none_iff_not_knows, written?]
  cases output.findKey? u.identifier <;> simp

theorem resolveOne_of_written?_eq_none {u : IdentifierUse}
    (hw : u.written? reference output = none) : (resolveOne reference u output).1 = output := by
  rw [fst_resolveOne, hw]
  rfl

theorem wellFormed_resolveOne (ho : output.WellFormed) (u : IdentifierUse) :
    (resolveOne reference u output).1.WellFormed :=
  Step.wellFormed_apply ho (.use u)

variable (ho : output.WellFormed) (href : reference.WellFormed)
include ho href

/-- **A key that is copied** stands at its place, where there was none, and no other
    place changes. -/
theorem locate?_resolveOne {u : IdentifierUse} {found : KeyMatch}
    (hw : u.written? reference output = some found) (a : Address) :
    (resolveOne reference u output).1.locate? a =
      if found.place.sameKey a then some (found.copiedTo output)
      else output.locate? a := by
  obtain ⟨hunknown, hfound⟩ := IdentifierUse.written?_eq_some_iff.1 hw
  obtain ⟨hid, hplace⟩ := href.locate?_of_findKey? hfound
  obtain ⟨hwell, htexts⟩ := href.key_of_locate? hplace
  have hmissing : output.locate? found.place = none :=
    ho.findKey?_eq_none_iff.1 hunknown found.place hid
  rw [fst_resolveOne, hw, Option.map_some, Option.getD_some,
    Project.locate?_setAll_writes ho htexts, KeyMatch.edit, Project.target_of_missing hmissing]
  simp only [KeyMatch.key_place, hwell.setAll_new, KeyMatch.copiedTo]

/-- A copy of a key of the reference is the same after another one is copied. -/
theorem copiedTo_resolveOne (u : IdentifierUse) {id : String} {found : KeyMatch}
    (hfound : reference.findKey? id = some found) :
    found.copiedTo (resolveOne reference u output).1 = found.copiedTo output := by
  rcases hw : u.written? reference output with _ | copied
  · rw [resolveOne_of_written?_eq_none hw]
  · obtain ⟨-, hcopied⟩ := IdentifierUse.written?_eq_some_iff.1 hw
    obtain ⟨-, hplace⟩ := href.locate?_of_findKey? hfound
    obtain ⟨-, hplace'⟩ := href.locate?_of_findKey? hcopied
    obtain ⟨-, htexts⟩ := href.key_of_locate? hplace'
    have howners := Project.owners_of_locate? hplace' hplace
    obtain ⟨hpackage, hcontainer⟩ := Project.owners_target_editKey htexts.isEmpty_setAll ho
      (fun h => (howners h).1) fun h => (howners h).2
    rw [fst_resolveOne, hw, Option.map_some, Option.getD_some,
      Project.setAll_writes_eq_editKey htexts, KeyMatch.copiedTo, hpackage, hcontainer]
    rfl

/-- **The use of an identifier makes known** this one if the reference knows it, and
    no other one. -/
theorem knows_resolveOne (u : IdentifierUse) (id : String) :
    (resolveOne reference u output).1.Knows id ↔
      output.Knows id ∨ sameFolded u.identifier id = true ∧ reference.Knows id := by
  rcases hw : u.written? reference output with _ | found
  · rw [resolveOne_of_written?_eq_none hw, iff_self_or]
    rintro ⟨hid, hknows⟩
    rw [← Project.knows_congr _ hid] at hknows ⊢
    exact (IdentifierUse.written?_eq_none_iff.1 hw).resolve_right (not_not_intro hknows)
  · obtain ⟨-, hfound⟩ := IdentifierUse.written?_eq_some_iff.1 hw
    obtain ⟨hid, hplace⟩ := href.locate?_of_findKey? hfound
    rw [(wellFormed_resolveOne ho u).knows_iff]
    constructor
    · rintro ⟨a, ha, hsome⟩
      rw [locate?_resolveOne ho href hw] at hsome
      split_ifs at hsome with hsame
      · have hkey := Address.key_of_sameKey hsame
        rw [KeyMatch.key_place, sameFolded_right ha, sameFolded_left hid] at hkey
        refine .inr ⟨hkey, href.knows_iff.2 ⟨found.place, ?_, by rw [hplace]; rfl⟩⟩
        rw [KeyMatch.key_place, sameFolded_left hid, hkey]
      · exact .inl (ho.knows_iff.2 ⟨a, ha, hsome⟩)
    · rintro (hknows | ⟨hkey, -⟩)
      · obtain ⟨a, ha, hsome⟩ := ho.knows_iff.1 hknows
        refine ⟨a, ha, ?_⟩
        rw [locate?_resolveOne ho href hw]
        split_ifs
        · rfl
        · exact hsome
      · refine ⟨found.place, ?_, ?_⟩
        · rw [KeyMatch.key_place, sameFolded_left hid, hkey]
        · rw [locate?_resolveOne ho href hw, if_pos (by simp [Address.sameKey])]
          rfl

end Step

/-! ## All uses -/

/-- No catalog knows the identifier. -/
def IdentifierUse.IsOrphan (reference output : Project) (u : IdentifierUse) : Prop :=
  ¬ output.Knows u.identifier ∧ ¬ reference.Knows u.identifier

/-- The reference knows the identifier, but the output does not. -/
def IdentifierUse.IsMissing (reference output : Project) (u : IdentifierUse) : Prop :=
  ¬ output.Knows u.identifier ∧ reference.Knows u.identifier

instance (reference output : Project) (u : IdentifierUse) :
    Decidable (u.IsOrphan reference output) :=
  inferInstanceAs (Decidable (_ ∧ _))

instance (reference output : Project) (u : IdentifierUse) :
    Decidable (u.IsMissing reference output) :=
  inferInstanceAs (Decidable (_ ∧ _))

/-- The identifiers that the reference knows and the output does not, without
    regard to case. -/
def missingIds (reference output : Project) (uses : List IdentifierUse) : Finset String :=
  ((uses.filter fun u => u.IsMissing reference output).map (lowerCased ·.identifier)).toFinset

theorem mem_missingIds {reference output : Project} {uses : List IdentifierUse} {s : String} :
    s ∈ missingIds reference output uses ↔
      ∃ u ∈ uses, u.IsMissing reference output ∧ lowerCased u.identifier = s := by
  simp [missingIds, and_assoc]

theorem IdentifierUse.written?_isSome_iff {reference output : Project} {u : IdentifierUse} :
    (u.written? reference output).isSome = true ↔ u.IsMissing reference output := by
  rw [← not_iff_not, Bool.not_eq_true, Option.isSome_eq_false_iff, Option.isNone_iff_eq_none,
    written?_eq_none_iff, IsMissing, not_and_or, not_not]

/-- The report on the use of an identifier. -/
theorem snd_resolveOne (reference output : Project) (u : IdentifierUse) :
    (resolveOne reference u output).2 =
      ⟨0, 0, if u.IsMissing reference output then 1 else 0,
        if u.IsOrphan reference output then [u] else []⟩ := by
  have hknows (p : Project) : p.Knows u.identifier ↔ ¬ p.findKey? u.identifier = none := by
    rw [Project.findKey?_eq_none_iff_not_knows, not_not]
  simp only [resolveOne, IdentifierUse.IsMissing, IdentifierUse.IsOrphan, hknows]
  cases output.findKey? u.identifier with
  | some => simp [Report.empty]
  | none => cases reference.findKey? u.identifier <;> simp

section Run

variable {reference output : Project} (ho : output.WellFormed) (href : reference.WellFormed)
include ho href

/-- **What is known after all uses**: what was, and what the reference knows of the
    identifiers. -/
theorem knows_resolveAll (uses : List IdentifierUse) (id : String) :
    (resolveAll reference uses output).1.Knows id ↔
      output.Knows id ∨ (∃ u ∈ uses, sameFolded u.identifier id = true) ∧ reference.Knows id := by
  induction uses generalizing output with
  | nil => simp [resolveAll]
  | cons u uses ih =>
    have hnext : (resolveAll reference (u :: uses) output).1 =
        (resolveAll reference uses (resolveOne reference u output).1).1 := rfl
    rw [hnext, ih (wellFormed_resolveOne ho u), knows_resolveOne ho href,
      List.exists_mem_cons_iff, or_assoc, or_and_right]

/-- **The orphans** are the uses of identifiers that neither catalog knows, in
    order. -/
theorem orphans_resolveAll (uses : List IdentifierUse) :
    (resolveAll reference uses output).2.orphans =
      uses.filter fun u => u.IsOrphan reference output := by
  induction uses generalizing output with
  | nil => rfl
  | cons u uses ih =>
    have hnext : (resolveAll reference (u :: uses) output).2.orphans =
        (resolveOne reference u output).2.orphans ++
          (resolveAll reference uses (resolveOne reference u output).1).2.orphans := rfl
    -- What a copy makes known is known to the reference, so it is no orphan before.
    have hsame : ∀ v : IdentifierUse, v.IsOrphan reference (resolveOne reference u output).1 ↔
        v.IsOrphan reference output := by
      intro v
      unfold IdentifierUse.IsOrphan
      rw [knows_resolveOne ho href]
      tauto
    rw [hnext, ih (wellFormed_resolveOne ho u), snd_resolveOne]
    simp only [hsame, List.filter_cons, decide_eq_true_eq]
    split_ifs <;> rfl

/-- **The count of copies** is that of the identifiers that only the reference knows,
    without regard to case. -/
theorem resolved_resolveAll (uses : List IdentifierUse) :
    (resolveAll reference uses output).2.resolved = (missingIds reference output uses).card := by
  induction uses generalizing output with
  | nil => rfl
  | cons u uses ih =>
    have hnext : (resolveAll reference (u :: uses) output).2.resolved =
        (resolveOne reference u output).2.resolved +
          (resolveAll reference uses (resolveOne reference u output).1).2.resolved := rfl
    rw [hnext, ih (wellFormed_resolveOne ho u), snd_resolveOne]
    by_cases hu : u.IsMissing reference output
    · have hsame : ∀ v : IdentifierUse, v.IsMissing reference (resolveOne reference u output).1 ↔
          v.IsMissing reference output ∧ lowerCased v.identifier ≠ lowerCased u.identifier := by
        intro v
        unfold IdentifierUse.IsMissing
        rw [knows_resolveOne ho href, sameFolded_iff, eq_comm]
        tauto
      have hids : missingIds reference output (u :: uses) = insert (lowerCased u.identifier)
          (missingIds reference (resolveOne reference u output).1 uses) := by
        ext s
        simp only [mem_missingIds, Finset.mem_insert, hsame]
        grind
      have hnew : lowerCased u.identifier ∉
          missingIds reference (resolveOne reference u output).1 uses := by
        simp only [mem_missingIds, hsame]
        grind
      rw [hids, Finset.card_insert_of_notMem hnew, if_pos hu, Nat.add_comm]
    · have hw : u.written? reference output = none := by
        rw [← Option.isNone_iff_eq_none, ← Option.isSome_eq_false_iff, Bool.eq_false_iff, ne_eq,
          IdentifierUse.written?_isSome_iff]
        exact hu
      have hids : missingIds reference output (u :: uses) = missingIds reference output uses := by
        simp [missingIds, hu]
      rw [resolveOne_of_written?_eq_none hw, hids, if_neg hu, Nat.zero_add]

/-- **What stands where after all uses**: what did before, or a key that the
    reference has for one of the identifiers. -/
theorem locate?_resolveAll (uses : List IdentifierUse) (a : Address) :
    (resolveAll reference uses output).1.locate? a = output.locate? a ∨
      output.locate? a = none ∧ ∃ u ∈ uses, ∃ found,
        reference.findKey? u.identifier = some found ∧ found.place.sameKey a = true ∧
        (resolveAll reference uses output).1.locate? a =
          some (found.copiedTo output) := by
  induction uses generalizing output with
  | nil => exact .inl rfl
  | cons u uses ih =>
    have hnext : (resolveAll reference (u :: uses) output).1 =
        (resolveAll reference uses (resolveOne reference u output).1).1 := rfl
    rw [hnext]
    rcases hw : u.written? reference output with _ | found
    · rw [resolveOne_of_written?_eq_none hw]
      rcases ih ho with hold | ⟨hmissing, v, hv, hcopied⟩
      · exact .inl hold
      · exact .inr ⟨hmissing, v, List.mem_cons_of_mem u hv, hcopied⟩
    · have hstep := locate?_resolveOne ho href hw a
      obtain ⟨hunknown, hfound⟩ := IdentifierUse.written?_eq_some_iff.1 hw
      by_cases hsame : found.place.sameKey a = true
      · have hmissing : output.locate? a = none := by
          rw [← output.locate?_congr hsame]
          exact ho.findKey?_eq_none_iff.1 hunknown _ (href.locate?_of_findKey? hfound).1
        rw [if_pos hsame] at hstep
        -- What is copied now stays as it is, since it is there from now on.
        rcases ih (wellFormed_resolveOne ho u) with hold | ⟨hnone, -⟩
        · exact .inr ⟨hmissing, u, List.mem_cons_self, found, hfound, hsame, hold.trans hstep⟩
        · rw [hnone] at hstep
          cases hstep
      · rw [if_neg hsame] at hstep
        rw [← hstep]
        rcases ih (wellFormed_resolveOne ho u) with
          hold | ⟨hmissing, v, hv, found', hfound', hsame', hm⟩
        · exact .inl hold
        · rw [copiedTo_resolveOne ho href u hfound'] at hm
          exact .inr ⟨hmissing, v, List.mem_cons_of_mem u hv, found', hfound', hsame', hm⟩

end Run

/-! ## Scripts -/

/-- The uses of identifiers are looked up completely, given what is known before:
    the report is on these uses, and what is copied comes from the reference. -/
structure ResolvesAll (reference before : Project) (uses : List IdentifierUse) (after : Project)
    (report : Report) : Prop where
  /-- The orphans are the uses of identifiers that no catalog knows, in order and
      as often as they occur. -/
  orphans : report.orphans = uses.filter fun u => u.IsOrphan reference before
  /-- The identifiers that only the reference knows are counted, each once. -/
  resolved : report.resolved = (missingIds reference before uses).card
  /-- Every other identifier is found afterwards. -/
  found : ∀ u ∈ uses, u ∉ report.orphans → ∃ m, after.findKey? u.identifier = some m
  /-- A new key is one that the reference has first for an identifier, at the place
      that it has there.  Its owners are spelled as there, or as they already are. -/
  copied : ∀ (a : Address) (m : KeyMatch), before.locate? a = none → after.locate? a = some m →
    ∃ u ∈ uses, ∃ found, reference.findKey? u.identifier = some found ∧
      found.place.sameKey a = true ∧ m = found.copiedTo before
  /-- Every other key is left as it is. -/
  kept : ∀ (a : Address) (m : KeyMatch), before.locate? a = some m → after.locate? a = some m

theorem resolvesAll_resolveAll {reference output : Project} (ho : output.WellFormed)
    (href : reference.WellFormed) (uses : List IdentifierUse) :
    ResolvesAll reference output uses (resolveAll reference uses output).1
      (resolveAll reference uses output).2 where
  orphans := orphans_resolveAll ho href uses
  resolved := resolved_resolveAll ho href uses
  found := by
    intro u hu horphan
    rw [orphans_resolveAll ho href, List.mem_filter, decide_eq_true_eq, IdentifierUse.IsOrphan,
      not_and, not_and_not_right] at horphan
    rw [← Option.ne_none_iff_exists', ne_eq, Project.findKey?_eq_none_iff_not_knows, not_not,
      knows_resolveAll ho href]
    by_cases hknows : output.Knows u.identifier
    · exact .inl hknows
    · exact .inr ⟨⟨u, hu, sameFolded_refl _⟩, horphan hu hknows⟩
  copied := by
    intro a m hmissing hm
    rcases locate?_resolveAll ho href uses a with
      hold | ⟨-, u, hu, found, hfound, hsame, hfirst⟩
    · rw [hold, hmissing] at hm
      cases hm
    · exact ⟨u, hu, found, hfound, hsame, Option.some.inj (hm.symm.trans hfirst)⟩
  kept := by
    intro a m hm
    rcases locate?_resolveAll ho href uses a with hold | ⟨hmissing, -⟩
    · rw [hold, hm]
    · rw [hmissing] at hm
      cases hm

/-- The report on directives says nothing about identifiers. -/
theorem orphans_saveAll (reference : Project) (ds : List Directive) (output : Project) :
    (saveAll reference ds output).2.orphans = [] ∧
      (saveAll reference ds output).2.resolved = 0 := by
  induction ds generalizing output with
  | nil => exact ⟨rfl, rfl⟩
  | cons d ds ih =>
    obtain ⟨horphans, hresolved⟩ := ih (d.save reference output).1
    constructor
    · exact horphans
    · exact (Nat.zero_add _).trans hresolved

/-- **The identifiers of a script are looked up completely**, given the output after
    its directives. -/
theorem resolvesAll_extract {reference output : Project} (href : reference.Reachable)
    (ho : output.Reachable) (base content : String) :
    ResolvesAll reference (saveAll reference (scan base content.toList) output).1
      (identifierUses content.toList) (extract reference base content output).1
      (extract reference base content output).2 := by
  have hsaved : (saveAll reference (scan base content.toList) output).1.WellFormed := by
    rw [fst_saveAll]
    exact wellFormed_runSteps ho.wellFormed _
  have hall := resolvesAll_resolveAll hsaved href.wellFormed (identifierUses content.toList)
  obtain ⟨horphans, hresolved⟩ := orphans_saveAll reference (scan base content.toList) output
  have houtput : (extract reference base content output).1 =
      (resolveAll reference (identifierUses content.toList)
        (saveAll reference (scan base content.toList) output).1).1 := rfl
  have horphans' : (extract reference base content output).2.orphans =
      (resolveAll reference (identifierUses content.toList)
        (saveAll reference (scan base content.toList) output).1).2.orphans := by
    simp only [extract, Report.add, horphans, List.nil_append]
  have hresolved' : (extract reference base content output).2.resolved =
      (resolveAll reference (identifierUses content.toList)
        (saveAll reference (scan base content.toList) output).1).2.resolved := by
    simp only [extract, Report.add, hresolved, Nat.zero_add]
  rw [houtput]
  refine ⟨horphans'.trans hall.orphans, hresolved'.trans hall.resolved, ?_, hall.copied, hall.kept⟩
  rw [horphans']
  exact hall.found

/-- A script that uses an identifier in two cases, and one that no catalog knows. -/
def hints : String := "hint localize \"str_greet\";\nhint localize \"STR_GREET\" + str_lost;\n"

/-- One key is copied for two uses, and the third use is reported with its line. -/
theorem resolvesAll_hints :
    greeting.Reachable ∧ (Project.new "Mission").Reachable ∧
      identifierUses hints.toList = [⟨1, "str_greet"⟩, ⟨2, "STR_GREET"⟩, ⟨2, "str_lost"⟩] ∧
      ResolvesAll greeting (saveAll greeting (scan "init" hints.toList) (.new "Mission")).1
        (identifierUses hints.toList) (extract greeting "init" hints (.new "Mission")).1
        (extract greeting "init" hints (.new "Mission")).2 ∧
      (extract greeting "init" hints (.new "Mission")).2.orphans = [⟨2, "str_lost"⟩] ∧
      (extract greeting "init" hints (.new "Mission")).2.resolved = 1 := by
  have huses : identifierUses hints.toList =
      [⟨1, "str_greet"⟩, ⟨2, "STR_GREET"⟩, ⟨2, "str_lost"⟩] := by decide +kernel
  have hall := resolvesAll_extract reachable_greeting (.new "Mission") "init" hints
  refine ⟨reachable_greeting, .new _, huses, hall, ?_, ?_⟩
  · rw [hall.orphans, huses]
    decide +kernel
  · rw [hall.resolved, huses]
    decide +kernel

end MissionText
