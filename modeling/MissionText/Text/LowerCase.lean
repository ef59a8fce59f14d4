/-
  Lower-casing, and the two ways in which texts are compared up to case.

  * `lowerCase` is the full lower-case mapping of the Unicode standard.  Two
    characters need more than the table: U+0130 becomes an `i` with a dot
    above, and a capital sigma becomes a final sigma where a cased character
    stands before it and none after it, case-ignorable ones not counted.
  * `sameFolded` compares texts after lower-casing; the catalog tells siblings
    apart by it.
  * `sameAscii` ignores the case of the letters `A` to `Z` only.
-/
import MissionText.Text.LowerCaseTable
import MissionText.Text.CasedTable

namespace MissionText

/-! ## Single characters -/

/-- A code point lies in one of the ranges. -/
def inRanges (ranges : List (Nat × Nat)) (n : Nat) : Bool :=
  ranges.any fun r => r.1 ≤ n && n ≤ r.2

/-- The character has the property Cased. -/
def isCased (c : Char) : Bool :=
  inRanges casedRanges c.toNat

/-- The character has the property Case_Ignorable. -/
def isCaseIgnorable (c : Char) : Bool :=
  inRanges caseIgnorableRanges c.toNat

/-- The simple lower-case form of a character. -/
def simpleLowerCase (c : Char) : Char :=
  if c.toNat < 0x80 then c.toLower
  else match caseRanges.find? (·.has c.toNat) with
    | some r => Char.ofNat (r.apply c.toNat)
    | none => c

/-! ## Texts -/

namespace Text

/-- The first character that is not case-ignorable exists and is cased. -/
def startsCased (cs : List Char) : Bool :=
  match cs.find? (fun c => !isCaseIgnorable c) with
  | some c => isCased c
  | none => false

/-- The lower-case form of one character, given the characters `before` it,
    the nearest first, and those `after` it. -/
def lowerCaseChar (before : List Char) (c : Char) (after : List Char) : List Char :=
  if c == 'Σ' then [if startsCased before && !startsCased after then 'ς' else 'σ']
  else if c == 'İ' then ['i', '\u0307']
  else [simpleLowerCase c]

/-- The lower-case form of a text that stands after the characters `before`. -/
def lowerCaseAfter (before : List Char) : List Char → List Char
  | [] => []
  | c :: cs => lowerCaseChar before c cs ++ lowerCaseAfter (c :: before) cs

/-- The lower-case form of a text. -/
def lowerCase (cs : List Char) : List Char :=
  lowerCaseAfter [] cs

end Text

/-- The lower-case form of a text. -/
def lowerCased (s : String) : String :=
  String.ofList (Text.lowerCase s.toList)

/-- Two texts are the same up to case: equal once lower-cased. -/
def sameFolded (a b : String) : Bool :=
  lowerCased a == lowerCased b

/-- Two texts differ at most in the case of the letters `A` to `Z`. -/
def sameAscii (a b : String) : Bool :=
  a.toList.map Char.toLower == b.toList.map Char.toLower

end MissionText
