/-
  What a step writes.

  A step writes all texts of one key at one place, or nothing (`Step.written?`):
  a directive its source text and what it carries over, the use of an unknown
  identifier the key that the reference has under it.

  * `Step.apply_eq`: a step is nothing but what it writes.
  * `translation?_use`: the use of an identifier leaves every translation as it
    is.
-/
import MissionText.Proofs.Catalog.Place
import MissionText.Proofs.Script.Steps

namespace MissionText

variable {reference output : Project}

/-! ## Writes -/

/-- What a directive writes. -/
def Directive.written (reference : Project) (d : Directive) : KeyMatch :=
  ⟨d.package, d.container, ⟨d.key, ⟨originalTag, d.text⟩ :: d.carriedFrom reference⟩⟩

theorem Directive.translations_written (reference : Project) (d : Directive) :
    (d.written reference).key.translations =
      ⟨originalTag, d.text⟩ :: d.carriedFrom reference := rfl

/-- What the use of an identifier writes. -/
def IdentifierUse.written? (reference output : Project) (u : IdentifierUse) : Option KeyMatch :=
  match output.findKey? u.identifier with
  | some _ => none
  | none => reference.findKey? u.identifier

/-- What a step writes. -/
def Step.written? (reference output : Project) : Step → Option KeyMatch
  | save d => some (d.written reference)
  | use u => u.written? reference output

theorem Directive.fst_save (reference output : Project) (d : Directive) :
    (d.save reference output).1 = output.setAll (d.written reference).writes := by
  rw [save, KeyMatch.writes, written, List.map_cons, Project.setAll_cons]
  rfl

theorem fst_resolveOne (reference output : Project) (u : IdentifierUse) :
    (resolveOne reference u output).1 =
      ((u.written? reference output).map (output.setAll ·.writes)).getD output := by
  unfold resolveOne IdentifierUse.written?
  cases output.findKey? u.identifier with
  | some => rfl
  | none =>
    dsimp only
    cases reference.findKey? u.identifier <;> rfl

/-- **A step is nothing but what it writes.** -/
theorem Step.apply_eq (reference output : Project) (s : Step) :
    s.apply reference output =
      ((s.written? reference output).map (output.setAll ·.writes)).getD output := by
  cases s with
  | save d => exact d.fst_save reference output
  | use u => exact fst_resolveOne reference output u

/-- An identifier is copied if the output does not know it, but the reference
    does. -/
theorem IdentifierUse.written?_eq_some_iff {u : IdentifierUse} {m : KeyMatch} :
    u.written? reference output = some m ↔
      output.findKey? u.identifier = none ∧ reference.findKey? u.identifier = some m := by
  unfold written?
  cases output.findKey? u.identifier <;> simp

/-! ## Translations -/

/-- **The use of an identifier leaves every translation as it is.** -/
theorem translation?_use (ho : output.WellFormed) (href : reference.WellFormed)
    (u : IdentifierUse) {a : Address} {t : Translation} (ht : output.translation? a = some t) :
    (resolveOne reference u output).1.translation? a = some t := by
  rw [fst_resolveOne]
  rcases hw : u.written? reference output with _ | m
  · exact ht
  · obtain ⟨hnone, hm⟩ := IdentifierUse.written?_eq_some_iff.1 hw
    obtain ⟨hid, hfound⟩ := href.locate?_of_findKey? hm
    have hother : ¬ m.place.sameKey a = true := by
      intro hsame
      have hkey := Address.key_of_sameKey hsame
      rw [KeyMatch.key_place] at hkey
      rw [← Project.findKey?_congr output hid, Project.findKey?_congr output hkey] at hnone
      rw [Project.translation?_eq_locate?, Project.locate?_of_findKey?_eq_none hnone] at ht
      cases ht
    have hkept : (output.setAll m.writes).locate? a = output.locate? a := by
      rw [Project.locate?_setAll_writes ho (href.key_of_locate? hfound).2, if_neg hother]
    rw [Option.map_some, Option.getD_some, Project.translation?_eq_locate?, hkept,
      ← Project.translation?_eq_locate?, ht]

/-- Nor do the uses of identifiers change any translation. -/
theorem translation?_resolveAll (ho : output.WellFormed) (href : reference.WellFormed)
    (uses : List IdentifierUse) {a : Address} {t : Translation}
    (ht : output.translation? a = some t) :
    (resolveAll reference uses output).1.translation? a = some t := by
  induction uses generalizing output with
  | nil => exact ht
  | cons u uses ih => exact ih (Step.wellFormed_apply ho (.use u)) (translation?_use ho href u ht)

end MissionText
