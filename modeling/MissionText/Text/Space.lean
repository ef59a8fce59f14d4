/-
  White space, and the text operations that depend on nothing else.

  * `isSpace` is the property White_Space; U+200B, U+FEFF and the separators
    U+001C to U+001F do not have it.
  * `words` are the maximal runs of characters that are not white space;
    `joinWords` puts them together again around one separator, which is how
    inner white space is collapsed.
  * `trim` drops white space at both ends.
-/

namespace MissionText

/-- The character has the property White_Space. -/
def isSpace (c : Char) : Bool :=
  let n := c.toNat
  (0x9 ≤ n && n ≤ 0xD) || n == 0x20 || n == 0x85 || n == 0xA0 || n == 0x1680 ||
    (0x2000 ≤ n && n ≤ 0x200A) || n == 0x2028 || n == 0x2029 || n == 0x202F ||
    n == 0x205F || n == 0x3000

namespace Text

/-- The maximal runs of characters that are not white space, from the left. -/
def words : List Char → List (List Char)
  | [] => []
  | c :: cs =>
    if isSpace c then words cs
    else match cs, words cs with
      | d :: _, w :: ws => if isSpace d then [c] :: w :: ws else (c :: w) :: ws
      | _, ws => [c] :: ws

/-- The words of a text around one separator. -/
def joinWords (separator : Char) (cs : List Char) : List Char :=
  List.intercalate [separator] (words cs)

/-- A text without the white space at its start. -/
def trimStart (cs : List Char) : List Char :=
  cs.dropWhile isSpace

/-- A text without the white space at its end. -/
def trimEnd (cs : List Char) : List Char :=
  (cs.reverse.dropWhile isSpace).reverse

/-- A text without the white space at either end. -/
def trim (cs : List Char) : List Char :=
  trimEnd (trimStart cs)

end Text

/-- A text without the white space at either end. -/
def trimmed (s : String) : String :=
  String.ofList (Text.trim s.toList)

/-- The text holds nothing but white space. -/
def isBlank (s : String) : Bool :=
  s.toList.all isSpace

end MissionText
