/-
  One piece of markup: what stands between a `<` and the end that belongs to it.

  * `Markup` lists the kinds; comments, instructions and document type
    declarations have no content that matters.
  * `Markup.read` takes the bytes after a `<` and returns the markup with the
    bytes after its end.  Each kind looks for its own end: the first `-->`,
    `]]>` or `?>`, the balanced `>` of a document type declaration, the first
    `>` of a tag outside quotes.
  * `Markup.read_suffix`: what follows the markup is a suffix of the input.
-/
import MissionText.Xml.Tag

namespace MissionText.Xml

/-- A piece of markup. -/
inductive Markup where
  /-- A comment, an instruction or a document type declaration. -/
  | ignored
  /-- Literal text. -/
  | cdata (content : Bytes)
  /-- A closing tag with the name it closes. -/
  | close (name : Bytes)
  /-- An opening tag with its content. -/
  | start (content : Bytes)
  /-- An opening tag that is closed at once. -/
  | empty (content : Bytes)
  deriving Repr, DecidableEq

/-! ## Ends -/

/-- The bytes before the first occurrence of `mark` and those after it. -/
def cutAt (mark : Bytes) : Bytes → Option (Bytes × Bytes)
  | [] => if mark.isEmpty then some ([], []) else none
  | b :: bs =>
    if mark.isPrefixOf (b :: bs) then some ([], (b :: bs).drop mark.length)
    else (cutAt mark bs).map fun (before, after) => (b :: before, after)

/-- The bytes before the `>` that closes `depth + 1` levels, and those after
    it. -/
def cutBalanced (depth : Nat) : Bytes → Option (Bytes × Bytes)
  | [] => none
  | b :: bs =>
    if b == '>'.toUInt8 && depth == 0 then some ([], bs)
    else
      let depth := if b == '<'.toUInt8 then depth + 1
        else if b == '>'.toUInt8 then depth - 1
        else depth
      (cutBalanced depth bs).map fun (before, after) => (b :: before, after)

/-- The bytes before the first `>` outside quotes and those after it; `quote`
    is the quote that is open. -/
def cutTag (quote : Option UInt8) : Bytes → Option (Bytes × Bytes)
  | [] => none
  | b :: bs =>
    match quote with
    | some q =>
      (cutTag (if b == q then none else some q) bs).map
        fun (before, after) => (b :: before, after)
    | none =>
      if b == '>'.toUInt8 then some ([], bs)
      else
        (cutTag (if b == '"'.toUInt8 || b == '\''.toUInt8 then some b else none) bs).map
          fun (before, after) => (b :: before, after)

/-! ## Kinds -/

/-- Bytes without the white space at their end; all of them if there is nothing
    else. -/
def trimName (bs : Bytes) : Bytes :=
  if bs.all isBlankByte then bs else (bs.reverse.dropWhile isBlankByte).reverse

/-- A letter of ASCII in upper case. -/
def upperByte (b : UInt8) : UInt8 :=
  if 'a'.toUInt8 ≤ b && b ≤ 'z'.toUInt8 then b - 0x20 else b

/-- A comment, from after the exclamation mark. -/
def readComment (bs : Bytes) : Except Fault (Markup × Bytes) :=
  if (utf8 "--").isPrefixOf bs then
    match cutAt (utf8 "-->") (bs.drop 2) with
    | some (_, rest) => .ok (.ignored, rest)
    | none => .error (.unclosed .comment)
  else .error (.unclosed .comment)

/-- A section of literal text, from after the exclamation mark. -/
def readCData (bs : Bytes) : Except Fault (Markup × Bytes) :=
  if (utf8 "[CDATA[").isPrefixOf bs then
    match cutAt (utf8 "]]>") (bs.drop 7) with
    | some (content, rest) => .ok (.cdata content, rest)
    | none => .error (.unclosed .cdata)
  else .error (.unclosed .cdata)

/-- A document type declaration, from after the exclamation mark. -/
def readDoctype (bs : Bytes) : Except Fault (Markup × Bytes) :=
  if (utf8 "DOCTYPE").isPrefixOf ((bs.take 7).map upperByte) then
    match cutBalanced 0 (bs.drop 7) with
    | some (content, rest) =>
      if content.all isBlankByte then .error .unnamedDoctype else .ok (.ignored, rest)
    | none => .error (.unclosed .doctype)
  else .error (.unclosed .doctype)

/-- An instruction, from after the first question mark. -/
def readInstruction (bs : Bytes) : Except Fault (Markup × Bytes) :=
  if (utf8 ">").isPrefixOf bs then .error (.unclosed .instruction)
  else
    match cutAt (utf8 "?>") bs with
    | some (_, rest) => .ok (.ignored, rest)
    | none => .error (.unclosed .instruction)

/-- A tag, from after the `<`. -/
def readTag (bs : Bytes) : Except Fault (Markup × Bytes) :=
  match cutTag none bs with
  | none => .error (.unclosed .tag)
  | some (content, rest) =>
    match content with
    | b :: name =>
      if b == '/'.toUInt8 then .ok (.close (trimName name), rest)
      else if content.getLast? == some '/'.toUInt8 then .ok (.empty content.dropLast, rest)
      else .ok (.start content, rest)
    | [] => .ok (.start [], rest)

/-- The markup at the start of the bytes after a `<`, and what follows it. -/
def Markup.read (bs : Bytes) : Except Fault (Markup × Bytes) :=
  match bs with
  | [] => .error (.unclosed .tag)
  | b :: rest =>
    if b == '!'.toUInt8 then
      match rest with
      | [] => .error .unknownMarkup
      | k :: _ =>
        if k == '-'.toUInt8 then readComment rest
        else if k == '['.toUInt8 then readCData rest
        else if upperByte k == 'D'.toUInt8 then readDoctype rest
        else .error .unknownMarkup
    else if b == '?'.toUInt8 then readInstruction rest
    else readTag (b :: rest)

/-! ## Progress -/

theorem cutAt_suffix {mark bs before after : Bytes}
    (h : cutAt mark bs = some (before, after)) : after <:+ bs := by
  induction bs generalizing before after with
  | nil =>
    simp only [cutAt] at h
    split at h
    · obtain ⟨-, rfl⟩ := Prod.mk.inj (Option.some.inj h)
      exact List.suffix_rfl
    · cases h
  | cons b bs ih =>
    simp only [cutAt] at h
    split at h
    · obtain ⟨-, rfl⟩ := Prod.mk.inj (Option.some.inj h)
      exact List.drop_suffix _ _
    · obtain ⟨⟨x, y⟩, hxy, hy⟩ := Option.map_eq_some_iff.1 h
      obtain ⟨-, rfl⟩ := Prod.mk.inj hy
      exact (ih hxy).trans (List.suffix_cons _ _)

theorem cutBalanced_suffix {depth : Nat} {bs before after : Bytes}
    (h : cutBalanced depth bs = some (before, after)) : after <:+ bs := by
  induction bs generalizing depth before after with
  | nil => cases h
  | cons b bs ih =>
    simp only [cutBalanced] at h
    split at h
    · obtain ⟨-, rfl⟩ := Prod.mk.inj (Option.some.inj h)
      exact List.suffix_cons _ _
    · obtain ⟨⟨x, y⟩, hxy, hy⟩ := Option.map_eq_some_iff.1 h
      obtain ⟨-, rfl⟩ := Prod.mk.inj hy
      exact (ih hxy).trans (List.suffix_cons _ _)

theorem cutTag_suffix {quote : Option UInt8} {bs before after : Bytes}
    (h : cutTag quote bs = some (before, after)) : after <:+ bs := by
  induction bs generalizing quote before after with
  | nil => cases h
  | cons b bs ih =>
    cases quote with
    | some q =>
      obtain ⟨⟨x, y⟩, hxy, hy⟩ := Option.map_eq_some_iff.1 h
      obtain ⟨-, rfl⟩ := Prod.mk.inj hy
      exact (ih hxy).trans (List.suffix_cons _ _)
    | none =>
      simp only [cutTag] at h
      split at h
      · obtain ⟨-, rfl⟩ := Prod.mk.inj (Option.some.inj h)
        exact List.suffix_cons _ _
      · obtain ⟨⟨x, y⟩, hxy, hy⟩ := Option.map_eq_some_iff.1 h
        obtain ⟨-, rfl⟩ := Prod.mk.inj hy
        exact (ih hxy).trans (List.suffix_cons _ _)

theorem readComment_suffix {bs : Bytes} {r : Markup × Bytes} (h : readComment bs = .ok r) :
    r.2 <:+ bs := by
  unfold readComment at h
  split at h
  · split at h
    · next _ rest hc =>
      cases h
      exact (cutAt_suffix hc).trans (List.drop_suffix _ _)
    · cases h
  · cases h

theorem readCData_suffix {bs : Bytes} {r : Markup × Bytes} (h : readCData bs = .ok r) :
    r.2 <:+ bs := by
  unfold readCData at h
  split at h
  · split at h
    · next _ rest hc =>
      cases h
      exact (cutAt_suffix hc).trans (List.drop_suffix _ _)
    · cases h
  · cases h

theorem readDoctype_suffix {bs : Bytes} {r : Markup × Bytes} (h : readDoctype bs = .ok r) :
    r.2 <:+ bs := by
  unfold readDoctype at h
  split at h
  · split at h
    · next _ rest hc =>
      split at h
      · cases h
      · cases h
        exact (cutBalanced_suffix hc).trans (List.drop_suffix _ _)
    · cases h
  · cases h

theorem readInstruction_suffix {bs : Bytes} {r : Markup × Bytes}
    (h : readInstruction bs = .ok r) : r.2 <:+ bs := by
  unfold readInstruction at h
  split at h
  · cases h
  · split at h
    · next _ rest hc =>
      cases h
      exact cutAt_suffix hc
    · cases h

theorem readTag_suffix {bs : Bytes} {r : Markup × Bytes} (h : readTag bs = .ok r) :
    r.2 <:+ bs := by
  unfold readTag at h
  split at h
  · cases h
  · next content rest hc =>
    have hr : rest <:+ bs := cutTag_suffix hc
    split at h
    · split at h
      · cases h
        exact hr
      · split at h <;> (cases h; exact hr)
    · cases h
      exact hr

/-- What follows a piece of markup is a suffix of the input. -/
theorem Markup.read_suffix {bs : Bytes} {r : Markup × Bytes} (h : Markup.read bs = .ok r) :
    r.2 <:+ bs := by
  unfold Markup.read at h
  split at h
  · cases h
  · next b rest =>
    have hb : rest <:+ b :: rest := List.suffix_cons _ _
    split at h
    · split at h
      · cases h
      · split at h
        · exact (readComment_suffix h).trans hb
        · split at h
          · exact (readCData_suffix h).trans hb
          · split at h
            · exact (readDoctype_suffix h).trans hb
            · cases h
    · split at h
      · exact (readInstruction_suffix h).trans hb
      · exact readTag_suffix h

end MissionText.Xml
