/-
  Identifiers: the names of keys as scripts use them.

  An identifier is `str_` in any case and at least one more letter, digit or
  underscore.  Case is ignored as Unicode's simple case folding does, so the
  long s counts as an s and the Kelvin sign as a k.
-/

namespace MissionText

/-- A letter s, the long one included. -/
def isLetterS (c : Char) : Bool := c == 's' || c == 'S' || c == '\u017F'

/-- The character may stand in an identifier. -/
def isIdentifierChar (c : Char) : Bool :=
  c.isAlphanum || c == '_' || c == '\u017F' || c == '\u212A'

/-- The identifier at the start of a text and what follows it. -/
def identifierAt? (cs : List Char) : Option (List Char × List Char) :=
  match cs with
  | s :: t :: r :: u :: rest =>
    if isLetterS s && (t == 't' || t == 'T') && (r == 'r' || r == 'R') && u == '_' &&
        !(rest.takeWhile isIdentifierChar).isEmpty then
      some (s :: t :: r :: u :: rest.takeWhile isIdentifierChar, rest.dropWhile isIdentifierChar)
    else none
  | _ => none

/-- An identifier takes characters from the front of the text, one at least. -/
theorem identifierAt?_eq_some {cs name rest : List Char}
    (h : identifierAt? cs = some (name, rest)) : name ≠ [] ∧ cs = name ++ rest := by
  unfold identifierAt? at h
  split at h
  · split at h
    · obtain ⟨rfl, rfl⟩ := Prod.mk.inj (Option.some.inj h)
      simp
    · cases h
  · cases h

/-- The identifiers of a line, from the left, none inside another. -/
def identifiers (cs : List Char) : List (List Char) :=
  match h : identifierAt? cs with
  | some (name, rest) =>
    have : rest.length < cs.length := by
      obtain ⟨hn, rfl⟩ := identifierAt?_eq_some h
      have := List.length_pos_iff.2 hn
      rw [List.length_append]
      omega
    name :: identifiers rest
  | none =>
    match cs with
    | [] => []
    | _ :: cs => identifiers cs
  termination_by cs.length

end MissionText
