/-
  The element tree of a document.

  `Content` is what stands inside an element: pieces of text and child elements
  in document order.  It is one sequence that branches at each child, so every
  function on it recurses on the children and on what follows.

  * `elements` are the children, `named` those of one name, `descendants` those
    of one name at any depth, all in document order.
  * `allText` joins every piece of text at any depth.
-/

namespace MissionText.Xml

/-- The content of an element. -/
inductive Content where
  | nil
  /-- A piece of text and what follows it. -/
  | text (piece : String) (rest : Content)
  /-- A child element and what follows it. -/
  | element (name : String) (attributes : List (String × String)) (children rest : Content)
  deriving Repr, DecidableEq

/-- An element with its local name. -/
structure Element where
  name : String
  attributes : List (String × String)
  content : Content
  deriving Repr, DecidableEq

namespace Content

/-- Two contents one after the other. -/
def append : Content → Content → Content
  | nil, d => d
  | text piece rest, d => text piece (rest.append d)
  | element name attributes children rest, d =>
    element name attributes children (rest.append d)

/-- A piece of text alone. -/
def ofText (piece : String) : Content := text piece nil

/-- An element alone. -/
def ofElement (e : Element) : Content := element e.name e.attributes e.content nil

/-- Elements one after the other. -/
def ofElements : List Element → Content
  | [] => nil
  | e :: es => element e.name e.attributes e.content (ofElements es)

/-- The child elements. -/
def elements : Content → List Element
  | nil => []
  | text _ rest => rest.elements
  | element name attributes children rest => ⟨name, attributes, children⟩ :: rest.elements

/-- The elements of one name at any depth, outer ones before those in them. -/
def descendants (name : String) : Content → List Element
  | nil => []
  | text _ rest => rest.descendants name
  | element n attributes children rest =>
    (if n = name then [⟨n, attributes, children⟩] else []) ++
      children.descendants name ++ rest.descendants name

/-- All text, that of child elements included. -/
def allText : Content → String
  | nil => ""
  | text piece rest => piece ++ rest.allText
  | element _ _ children rest => children.allText ++ rest.allText

end Content

namespace Element

/-- The value of the first attribute of a name. -/
def value? (e : Element) (name : String) : Option String :=
  (e.attributes.find? (·.1 = name)).map (·.2)

/-- The value of an attribute, empty if it is missing. -/
def value (e : Element) (name : String) : String :=
  (e.value? name).getD ""

/-- The children of one name. -/
def named (e : Element) (name : String) : List Element :=
  e.content.elements.filter (·.name = name)

/-- The first child of a name. -/
def child? (e : Element) (name : String) : Option Element :=
  e.content.elements.find? (·.name = name)

/-- The elements of one name below this one. -/
def descendants (e : Element) (name : String) : List Element :=
  e.content.descendants name

/-- All text in the element. -/
def allText (e : Element) : String :=
  e.content.allText

end Element

end MissionText.Xml
