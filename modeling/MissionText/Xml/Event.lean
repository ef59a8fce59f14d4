/-
  The events of a document: its tags and texts in order.

  `readEvents` alternates between text, which runs to the next `<`, and
  markup.  It keeps the names of the open tags and stops at the first closing
  tag that does not match the innermost of them, or at the first fault of the
  markup; the events before that are still delivered.
-/
import MissionText.Xml.Markup

namespace MissionText.Xml

/-- A step through a document.  Tags and texts are bytes still to be decoded. -/
inductive Event where
  /-- An element is opened by a tag with this content. -/
  | start (tag : Bytes)
  /-- An element without content. -/
  | empty (tag : Bytes)
  /-- The innermost element is closed. -/
  | close
  /-- Text in its written form. -/
  | text (raw : Bytes)
  /-- Literal text. -/
  | cdata (content : Bytes)
  /-- Markup without a meaning for the tree. -/
  | ignored
  deriving Repr, DecidableEq

/-- A name for messages, empty if it is not UTF-8. -/
def shownName (name : Bytes) : String :=
  match Utf8.decode name with
  | .ok cs => String.ofList cs
  | .error _ => ""

/-- The event of a piece of markup among open tags, and the tags open after
    it. -/
def Event.ofMarkup (opened : List Bytes) : Markup → Except Fault (Event × List Bytes)
  | .ignored => .ok (.ignored, opened)
  | .cdata content => .ok (.cdata content, opened)
  | .start tag => .ok (.start tag, tagName tag :: opened)
  | .empty tag => .ok (.empty tag, opened)
  | .close name =>
    match opened with
    | [] => .error (.unmatchedClose (shownName name))
    | expected :: outer =>
      if name = expected then .ok (.close, outer)
      else .error (.mismatchedClose (shownName expected) (shownName name))

/-! ## Reading -/

/-- The events of a byte sequence among open tags, and the fault that ends
    them. -/
def readEvents (opened : List Bytes) (bs : Bytes) : List Event × Option Fault :=
  match bs with
  | [] => ([], none)
  | b :: rest =>
    if b == '<'.toUInt8 then
      match h : Markup.read rest with
      | .error fault => ([], some fault)
      | .ok (markup, after) =>
        have : after.length ≤ rest.length := (Markup.read_suffix h).length_le
        match Event.ofMarkup opened markup with
        | .error fault => ([], some fault)
        | .ok (event, opened) =>
          let (events, fault) := readEvents opened after
          (event :: events, fault)
    else
      let raw := b :: rest.takeWhile (· != '<'.toUInt8)
      have : (rest.dropWhile (· != '<'.toUInt8)).length ≤ rest.length :=
        (List.dropWhile_suffix _).length_le
      let (events, fault) := readEvents opened (rest.dropWhile (· != '<'.toUInt8))
      (.text raw :: events, fault)
  termination_by bs.length

end MissionText.Xml
