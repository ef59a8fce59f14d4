/-
  Writing element trees.

  `Content.print` writes a tree as it is, with a closing tag for every element.
  `Content.indented` lays a tree out first: it puts each child element on a
  line of its own and the closing tag of an element on a line of its own too,
  unless the element starts with text, which is left alone.
-/
import MissionText.Xml.Content
import MissionText.Xml.Escape

namespace MissionText.Xml

/-- The declaration that every written document starts with. -/
def declaration : String := "<?xml version=\"1.0\" encoding=\"utf-8\"?>"

/-- An attribute with the space before it. -/
def printAttribute (a : String × String) : String :=
  " " ++ a.1 ++ "=\"" ++ escapeAttribute a.2 ++ "\""

/-- An opening tag. -/
def openTag (name : String) (attributes : List (String × String)) : String :=
  "<" ++ name ++ String.join (attributes.map printAttribute) ++ ">"

/-- A closing tag. -/
def closeTag (name : String) : String :=
  "</" ++ name ++ ">"

namespace Content

/-- The written form of a content. -/
def print : Content → String
  | nil => ""
  | text piece rest => escapeText piece ++ rest.print
  | element name attributes children rest =>
    openTag name attributes ++ children.print ++ closeTag name ++ rest.print

/-! ## Layout -/

/-- A line break with the indentation of a depth, four spaces for each level. -/
def newline (depth : Nat) : String :=
  "\n" ++ String.ofList (List.replicate (4 * depth) ' ')

/-- The content starts with text. -/
def startsWithText : Content → Bool
  | text _ _ => true
  | _ => false

/-- The content with every element on a line of its own at a depth. -/
def indented (depth : Nat) : Content → Content
  | nil => nil
  | text piece rest => text piece (rest.indented depth)
  | element name attributes children rest =>
    text (newline depth) <| element name attributes
      (if children.startsWithText then children
       else (children.indented (depth + 1)).append (ofText (newline depth)))
      (rest.indented depth)

end Content

/-- A document on one line after the declaration. -/
def printDocument (root : Element) : String :=
  declaration ++ "\n" ++ (Content.ofElement root).print ++ "\n"

/-- A document with one line for each element. -/
def printIndented (root : Element) : String :=
  declaration ++ ((Content.ofElement root).indented 0).print ++ "\n"

end MissionText.Xml
