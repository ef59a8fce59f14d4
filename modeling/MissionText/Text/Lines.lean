/-
  The lines of a text.

  A line ends at a line feed or at the end of the text; a carriage return
  directly before the line feed belongs to the line end, any other one to the
  line.  A text that ends in a line feed has no empty last line.
-/

namespace MissionText

namespace Text

/-- A line without the carriage return at its end. -/
def chompReturn (line : List Char) : List Char :=
  if line.getLast? = some '\r' then line.dropLast else line

/-- The lines of a text, given the characters of the current line that have
    been read, the last one first. -/
def linesFrom (current : List Char) : List Char → List (List Char)
  | [] => if current.isEmpty then [] else [current.reverse]
  | c :: cs =>
    if c = '\n' then chompReturn current.reverse :: linesFrom [] cs
    else linesFrom (c :: current) cs

/-- The lines of a text. -/
def lines (cs : List Char) : List (List Char) :=
  linesFrom [] cs

end Text

end MissionText
