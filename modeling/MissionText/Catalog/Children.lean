/-
  Children with an index of their names.

  `Children` holds the children of one node in declaration order, and beside them
  the position of each under its lower-cased name, so that a child is found
  without a look at its siblings.  The two have to agree: a new child is entered
  at the end of both, and when a child is dropped, the positions after it move
  down by one.

  * `get?` finds a child, `put` changes one or makes it first, `remove` drops one.
  * `removeBelow` removes something below a child, which goes with it if nothing
    is left in it.
-/
import MissionText.Catalog.Siblings

namespace MissionText

/-- The children of one node, and the position of each by its lower-cased name. -/
structure Children (α : Type) where
  items : List α
  index : List (String × Nat)
  deriving Repr, DecidableEq

namespace Children

variable {α β : Type}

/-- No children. -/
def empty : Children α := ⟨[], []⟩

def isEmpty (c : Children α) : Bool := c.items.isEmpty

/-- The position of the child of a name. -/
def position? (name : String) (c : Children α) : Option Nat :=
  c.index.lookup (lowerCased name)

/-- The child of a name. -/
def get? (name : String) (c : Children α) : Option α :=
  (c.position? name).bind fun i => c.items[i]?

/-- The children after the one of a name is changed.  A missing one is created
    first and comes last. -/
def put (name : String) (create : α) (f : α → α) (c : Children α) : Children α :=
  match c.position? name with
  | some i => { c with items := c.items.modify i f }
  | none => ⟨c.items ++ [f create], (lowerCased name, c.items.length) :: c.index⟩

/-- A position after the child at another one is dropped. -/
def movedDown (dropped position : Nat) : Nat :=
  if dropped < position then position - 1 else position

/-- The index after the entry of a name is dropped and the later ones move down. -/
def reindexed (name : String) (dropped : Nat) (index : List (String × Nat)) :
    List (String × Nat) :=
  (index.filter fun e => e.1 != lowerCased name).map fun e => (e.1, movedDown dropped e.2)

/-- The child of a name, and the children without it. -/
def remove (name : String) (c : Children α) : Option α × Children α :=
  match c.position? name with
  | none => (none, c)
  | some i => (c.items[i]?, ⟨c.items.eraseIdx i, reindexed name i c.index⟩)

/-- What is removed below the child of a name, and the children after that.  The
    child is dropped if it is left `isVoid`. -/
def removeBelow (name : String) (isVoid : α → Bool) (f : α → Option β × α) (c : Children α) :
    Option β × Children α :=
  match c.get? name with
  | none => (none, c)
  | some x =>
    let (removed, y) := f x
    (removed, if isVoid y then (c.remove name).2 else c.put name y fun _ => y)

end Children

end MissionText
