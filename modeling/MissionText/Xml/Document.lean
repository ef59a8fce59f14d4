/-
  Documents: the one element tree that a sequence of events describes.

  * `Builder` holds the elements that are open, the innermost first, and the
    root once it is complete; `Builder.step` takes one event.  Text outside
    elements is skipped without being decoded.
  * `ofEvents` runs the builder over all events and asks that nothing is left
    open and that there is a root.
  * `parseDocument` reads bytes.  A fault of the builder comes from an earlier
    event than the fault at which the reader stops, so it is the one reported.
-/
import MissionText.Xml.Content
import MissionText.Xml.Event

namespace MissionText.Xml

/-- A document in the making. -/
structure Builder where
  /-- The open elements with their content so far, the innermost first. -/
  opened : List Element
  root : Option Element
  deriving Repr, DecidableEq

namespace Builder

/-- Nothing has been read. -/
def initial : Builder := ⟨[], none⟩

/-- Content is added to the innermost open element; outside elements it is
    dropped. -/
def add (b : Builder) (c : Content) : Builder :=
  match b.opened with
  | [] => b
  | e :: outer => { b with opened := { e with content := e.content.append c } :: outer }

/-- A finished element becomes a child of the innermost open one, or the
    root. -/
def attach (b : Builder) (e : Element) : Except DocumentFault Builder :=
  match b.opened, b.root with
  | [], none => .ok { b with root := some e }
  | [], some _ => .error .manyRoots
  | _ :: _, _ => .ok (b.add (.ofElement e))

/-- The element that a tag opens, without content. -/
def element (tag : Bytes) : Except DocumentFault Element :=
  (tagAttributes tag).map fun attributes => ⟨elementName tag, attributes, .nil⟩

/-- One event. -/
def step (b : Builder) : Event → Except DocumentFault Builder
  | .start tag => do
    let e ← element tag
    return { b with opened := e :: b.opened }
  | .empty tag => do
    let e ← element tag
    b.attach e
  | .close =>
    match b.opened with
    | [] => .error .unexpectedClose
    | e :: outer => attach { b with opened := outer } e
  | .text raw =>
    match b.opened with
    | [] => .ok b
    | _ :: _ => do
      let piece ← (decodeText raw).mapError .reader
      return b.add (.ofText piece)
  | .cdata content => .ok (b.add (.ofText (lossyText content)))
  | .ignored => .ok b

/-- All events. -/
def run (b : Builder) : List Event → Except DocumentFault Builder
  | [] => .ok b
  | e :: es => do
    let b ← b.step e
    b.run es

/-- The document is over. -/
def finish (b : Builder) : Except DocumentFault Element :=
  match b.opened, b.root with
  | e :: _, _ => .error (.unclosedElement e.name)
  | [], some root => .ok root
  | [], none => .error .noRoot

end Builder

/-- The root of the document that the events describe. -/
def ofEvents (events : List Event) : Except DocumentFault Element := do
  let b ← Builder.initial.run events
  b.finish

/-- Bytes without a byte order mark at their start. -/
def dropMark : Bytes → Bytes
  | 0xEF :: 0xBB :: 0xBF :: bs => bs
  | bs => bs

/-- The root element of a document. -/
def parseDocument (bs : Bytes) : Except DocumentFault Element :=
  match readEvents [] (dropMark bs) with
  | (events, none) => ofEvents events
  | (events, some fault) => do
    let _ ← Builder.initial.run events
    throw (.reader fault)

end MissionText.Xml
