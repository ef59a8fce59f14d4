/-
  Siblings: the named children of one node, in declaration order.

  Two siblings never have names that are the same under `sameFolded`.  All
  changes go through `alter`, which rewrites the child of a name in place,
  drops it, or puts a new one last.  A child therefore keeps its position for
  as long as it exists.
-/
import MissionText.Text.LowerCase

namespace MissionText

/-- Things that have a name among their siblings. -/
class Named (α : Type) where
  name : α → String

namespace Siblings

variable {α : Type} [Named α]

/-- The child of a name. -/
def find? (name : String) (xs : List α) : Option α :=
  xs.find? fun x => sameFolded (Named.name x) name

/-- The children after the one of a name, or its absence, is replaced. -/
def alter (name : String) (f : Option α → Option α) : List α → List α
  | [] => (f none).toList
  | x :: xs =>
    if sameFolded (Named.name x) name then (f (some x)).toList ++ xs
    else x :: alter name f xs

/-- The children after the one of a name is edited.  A missing one is created
    first, and one that is left `isVoid` is dropped. -/
def edit (name : String) (create : α) (isVoid : α → Bool) (f : α → α) (xs : List α) : List α :=
  alter name (fun x => let y := f (x.getD create); if isVoid y then none else some y) xs

/-- No two children have the same name. -/
def Distinct (xs : List α) : Prop :=
  xs.Pairwise fun x y => sameFolded (Named.name x) (Named.name y) = false

end Siblings

end MissionText
