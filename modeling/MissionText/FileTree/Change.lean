/-
  Changes of a file tree, made step by step.

  A `Change` gives its outcome and the tree after it.  What has been done
  before a failure stays done, so the tree after a failed change need not be the
  one before it.  A single operation either happens or leaves the tree as it is
  (`perform`).
-/
import MissionText.FileTree

namespace MissionText.FileTree

/-- A change of a file tree with an outcome of type `α`. -/
abbrev Change (α : Type) := EStateM IoError FileTree α

namespace Change

/-- The change made by one operation. -/
def perform (operation : FileTree → Except IoError FileTree) : Change PUnit := fun t =>
  match operation t with
  | .ok t => .ok ⟨⟩ t
  | .error e => .error e t

theorem perform_eq_ok {operation : FileTree → Except IoError FileTree} {t t' : FileTree}
    (h : operation t = .ok t') : perform operation t = .ok ⟨⟩ t' := by
  rw [perform, h]

theorem perform_eq_error {operation : FileTree → Except IoError FileTree} {t : FileTree}
    {e : IoError} (h : operation t = .error e) : perform operation t = .error e t := by
  rw [perform, h]

/-- A file is replaced, whether or not it is there. -/
def replaceFile (path : String) (content : Bytes) : Change PUnit := do
  if (← get).pathExists path then perform (·.removeFile path)
  perform (·.writeFile path content)

end Change

end MissionText.FileTree
