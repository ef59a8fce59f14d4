/-
  What can be wrong with an XML document, and the wording of each fault.

  * `Fault` is what the reader of markup and text finds: markup that does not
    end, tags that do not match, bytes that are not UTF-8, references that
    stand for nothing.
  * `AttributeFault` is an attribute that is not written `key="value"`.
  * `DocumentFault` adds to both the faults of the tree as a whole.
-/
import MissionText.Text.Utf8

namespace MissionText.Xml

/-! ## References -/

/-- Why a numeric character reference stands for no character. -/
inductive ReferenceFault where
  /-- The number starts with a sign. -/
  | sign
  /-- There are no digits. -/
  | noDigits
  /-- A character is not a digit of the radix. -/
  | badDigit
  /-- The number has more than 32 bits. -/
  | tooLarge
  /-- The number is zero. -/
  | zero
  /-- The number is not the code point of a character. -/
  | noCharacter (value : Nat)
  deriving Repr, DecidableEq

/-- The wording of a reference fault. -/
def ReferenceFault.message : ReferenceFault → String
  | .sign => "unexpected number sign"
  | .noDigits => "cannot parse integer from empty string"
  | .badDigit => "invalid digit found in string"
  | .tooLarge => "number too large to fit in target type"
  | .zero => "0x0 character is not permitted in XML"
  | .noCharacter value => "`" ++ toString value ++ "` is not a valid codepoint"

/-- Why a text cannot be unescaped.  Positions are bytes of that text. -/
inductive EscapeFault where
  /-- The ampersand at `first` is not closed in a text of `length` bytes. -/
  | unterminated (first length : Nat)
  /-- The entity name in the bytes `first` to `last` is not known. -/
  | unknownEntity (first last : Nat) (name : String)
  /-- A numeric reference is faulty. -/
  | reference (fault : ReferenceFault)
  deriving Repr, DecidableEq

/-- The wording of an escape fault. -/
def EscapeFault.message : EscapeFault → String
  | .unterminated first length =>
    "Error while escaping character at range " ++ toString first ++ ".." ++ toString length ++
      ": Cannot find ';' after '&'"
  | .unknownEntity first last name =>
    "at " ++ toString first ++ ".." ++ toString last ++ ": unrecognized entity `" ++ name ++ "`"
  | .reference fault => "invalid character reference: " ++ fault.message

/-! ## Markup -/

/-- The kinds of markup that can lack their end. -/
inductive MarkupKind where
  | comment
  | cdata
  | doctype
  | instruction
  | tag
  deriving Repr, DecidableEq

/-- The wording for markup that does not end before the input does. -/
def MarkupKind.unclosedMessage : MarkupKind → String
  | .comment => "comment not closed: `-->` not found before end of input"
  | .cdata => "CDATA not closed: `]]>` not found before end of input"
  | .doctype => "DOCTYPE not closed: `>` not found before end of input"
  | .instruction =>
    "processing instruction or xml declaration not closed: `?>` not found before end of input"
  | .tag => "tag not closed: `>` not found before end of input"

/-- What the reader of markup and text finds wrong. -/
inductive Fault where
  /-- An exclamation mark starts no known kind of markup. -/
  | unknownMarkup
  /-- Markup without its end. -/
  | unclosed (kind : MarkupKind)
  /-- A document type declaration without a name. -/
  | unnamedDoctype
  /-- A closing tag that differs from the innermost open tag. -/
  | mismatchedClose (expected found : String)
  /-- A closing tag where nothing is open. -/
  | unmatchedClose (found : String)
  /-- Text that is not UTF-8. -/
  | encoding (fault : Utf8.Fault)
  /-- Text that cannot be unescaped. -/
  | escape (fault : EscapeFault)
  deriving Repr, DecidableEq

/-- The wording of a fault. -/
def Fault.message : Fault → String
  | .unknownMarkup => "syntax error: unknown or missed symbol in markup"
  | .unclosed kind => "syntax error: " ++ kind.unclosedMessage
  | .unnamedDoctype =>
    "ill-formed document: `<!DOCTYPE>` declaration does not contain a name of a document type"
  | .mismatchedClose expected found =>
    "ill-formed document: expected `</" ++ expected ++ ">`, but `</" ++ found ++ ">` was found"
  | .unmatchedClose found =>
    "ill-formed document: close tag `</" ++ found ++ ">` does not match any open tag"
  | .encoding fault => "cannot decode input using UTF-8: " ++ fault.message
  | .escape fault => fault.message

/-! ## Attributes and documents -/

/-- Why the attributes of a tag cannot be read.  Positions are bytes of the
    tag's content. -/
inductive AttributeFault where
  /-- A key that no equals sign follows. -/
  | noEquals (position : Nat)
  /-- An equals sign that nothing follows. -/
  | noValue (position : Nat)
  /-- A value that no quote opens. -/
  | unquoted (position : Nat)
  /-- A value that its quote does not close. -/
  | unclosed (position : Nat) (quote : Char)
  deriving Repr, DecidableEq

/-- The wording of an attribute fault. -/
def AttributeFault.message : AttributeFault → String
  | .noEquals position =>
    "position " ++ toString position ++
      ": attribute key must be directly followed by `=` or space"
  | .noValue position =>
    "position " ++ toString position ++ ": `=` must be followed by an attribute value"
  | .unquoted position =>
    "position " ++ toString position ++ ": attribute value must be enclosed in `\"` or `'`"
  | .unclosed position quote =>
    "position " ++ toString position ++ ": missing closing quote `" ++ quote.toString ++
      "` in attribute value"

/-- Why bytes are not one document. -/
inductive DocumentFault where
  /-- The reader stops at a fault. -/
  | reader (fault : Fault)
  /-- A tag has a faulty attribute. -/
  | tag (fault : AttributeFault)
  /-- A closing tag where nothing is open. -/
  | unexpectedClose
  /-- An element that the end of the input leaves open. -/
  | unclosedElement (name : String)
  /-- A second element outside the first. -/
  | manyRoots
  /-- No element at all. -/
  | noRoot
  deriving Repr, DecidableEq

end MissionText.Xml
