/-
  The reports on an extraction, step by step and script by script.

  * `Report.Agrees` compares reports without regard to what is carried over.
  * `snd_extract`: the report on a script is that on its steps.
  * `extractReports` are the reports on scripts, one on each.
-/
import MissionText.Proofs.Script.Steps

namespace MissionText

/-! ## Agreement -/

/-- The same counts of directives and of copied keys, and the same orphans. -/
structure Report.Agrees (r r' : Report) : Prop where
  directives : r.directives = r'.directives
  resolved : r.resolved = r'.resolved
  orphans : r.orphans = r'.orphans

theorem Report.Agrees.refl (r : Report) : r.Agrees r := ⟨rfl, rfl, rfl⟩

theorem Report.Agrees.add {a a' b b' : Report} (ha : a.Agrees a') (hb : b.Agrees b') :
    (a.add b).Agrees (a'.add b') := by
  constructor <;> simp only [Report.add, ha.directives, ha.resolved, ha.orphans, hb.directives,
    hb.resolved, hb.orphans]

/-! ## Steps -/

/-- The report on a step. -/
def Step.report (reference output : Project) : Step → Report
  | save d => ⟨if d.text.isEmpty then 0 else 1, (d.save reference output).2, 0, []⟩
  | use u => (resolveOne reference u output).2

/-- The report on steps. -/
def reportSteps (reference : Project) : List Step → Project → Report
  | [], _ => .empty
  | s :: steps, output =>
    (s.report reference output).add (reportSteps reference steps (s.apply reference output))

theorem snd_saveAll (reference : Project) (ds : List Directive) (output : Project) :
    (saveAll reference ds output).2 = reportSteps reference (ds.map .save) output := by
  induction ds generalizing output with
  | nil => rfl
  | cons d ds ih => exact congrArg (Report.add _) (ih (d.save reference output).1)

theorem snd_resolveAll (reference : Project) (uses : List IdentifierUse) (output : Project) :
    (resolveAll reference uses output).2 = reportSteps reference (uses.map .use) output := by
  induction uses generalizing output with
  | nil => rfl
  | cons u uses ih => exact congrArg (Report.add _) (ih (resolveOne reference u output).1)

/-- The report on a script is that on its directives and that on the identifiers
    it uses. -/
theorem snd_extract (reference : Project) (script : String × String) (output : Project) :
    (extract reference script.1 script.2 output).2 =
      (reportSteps reference ((scan script.1 script.2.toList).map .save) output).add
        (reportSteps reference ((identifierUses script.2.toList).map .use)
          (runSteps reference ((scan script.1 script.2.toList).map .save) output)) := by
  rw [← snd_saveAll, ← snd_resolveAll, ← fst_saveAll]
  rfl

/-! ## Scripts -/

/-- The reports on scripts, one on each. -/
def extractReports (reference : Project) : List (String × String) → Project → List Report
  | [], _ => []
  | s :: scripts, output =>
    (extract reference s.1 s.2 output).2 ::
      extractReports reference scripts (extract reference s.1 s.2 output).1

end MissionText
