/-
  The lexemes of a glob pattern.

  A backslash takes the next character literally.  A slash so taken is not a
  separator: it stands for a slash, but no `**` ends at it.

  * `[…]` is a class.  The first bracket without an end is a literal one, as
    are all brackets after it.
  * `lex?` fails for ranges that run backwards, in a class without an end too,
    and for a backslash at the end.
-/
import MissionText.Text.Utf8

namespace MissionText.Glob

/-- A part of a pattern's text. -/
inductive Lexeme where
  | question
  | star
  /-- A slash. -/
  | separator
  | opening
  | closing
  | comma
  | literal (c : Char)
  /-- A class with its ranges. -/
  | set (negated : Bool) (ranges : List (Char × Char))
  deriving Repr, DecidableEq

/-! ## Classes -/

/-- A class while it is read: its ranges, the last one first, and whether a
    hyphen after the last one is open. -/
structure OpenSet where
  ranges : List (Char × Char)
  hyphen : Bool

namespace OpenSet

/-- The class with one more character, which is taken as the end of a range if
    a hyphen is open. -/
def add? (s : OpenSet) (c : Char) : Option OpenSet :=
  match s.hyphen, s.ranges with
  | true, (low, _) :: ranges => if c < low then none else some ⟨(low, c) :: ranges, false⟩
  | _, ranges => some ⟨(c, c) :: ranges, false⟩

/-- The ranges of the class at its end, where an open hyphen stands for
    itself. -/
def close (s : OpenSet) : List (Char × Char) :=
  (if s.hyphen then ('-', '-') :: s.ranges else s.ranges).reverse

end OpenSet

/-- What an opening bracket starts. -/
inductive SetReading where
  | closed (negated : Bool) (ranges : List (Char × Char)) (rest : List Char)
  | unclosed
  | backwards

/-- The reading of a class that is open. -/
def readSetFrom (negated : Bool) (s : OpenSet) : List Char → SetReading
  | [] => .unclosed
  | c :: cs =>
    if c = ']' then .closed negated s.close cs
    else if c = '-' && !s.hyphen then readSetFrom negated { s with hyphen := true } cs
    else match s.add? c with
      | some s => readSetFrom negated s cs
      | none => .backwards

/-- The reading of a class whose first character, which is always literal, comes
    next. -/
def readSetFirst (negated : Bool) : List Char → SetReading
  | [] => .unclosed
  | c :: cs => readSetFrom negated ⟨[(c, c)], false⟩ cs

/-- The reading of what follows an opening bracket. -/
def readSet : List Char → SetReading
  | '!' :: cs => readSetFirst true cs
  | '^' :: cs => readSetFirst true cs
  | cs => readSetFirst false cs

theorem readSetFrom_suffix {n negated : Bool} {s : OpenSet} {cs rest : List Char}
    {ranges : List (Char × Char)} (h : readSetFrom n s cs = .closed negated ranges rest) :
    rest <:+ cs := by
  induction cs generalizing s with
  | nil => cases h
  | cons c cs ih =>
    unfold readSetFrom at h
    split at h
    · cases h
      exact List.suffix_cons c rest
    · split at h
      · exact (ih h).trans (List.suffix_cons c cs)
      · split at h
        · exact (ih h).trans (List.suffix_cons c cs)
        · cases h

theorem readSetFirst_suffix {n negated : Bool} {cs rest : List Char}
    {ranges : List (Char × Char)} (h : readSetFirst n cs = .closed negated ranges rest) :
    rest <:+ cs := by
  cases cs with
  | nil => cases h
  | cons c cs => exact (readSetFrom_suffix h).trans (List.suffix_cons c cs)

/-- What follows a class is a suffix of what follows its opening bracket. -/
theorem readSet_suffix {negated : Bool} {cs rest : List Char} {ranges : List (Char × Char)}
    (h : readSet cs = .closed negated ranges rest) : rest <:+ cs := by
  unfold readSet at h
  split at h
  · exact (readSetFirst_suffix h).trans (List.suffix_cons _ _)
  · exact (readSetFirst_suffix h).trans (List.suffix_cons _ _)
  · exact readSetFirst_suffix h

/-! ## Patterns -/

/-- What a character stands for by itself. -/
def Lexeme.ofChar : Char → Lexeme
  | '?' => .question
  | '*' => .star
  | '/' => .separator
  | '\x7b' => .opening
  | '\x7d' => .closing
  | ',' => .comma
  | c => .literal c

/-- The lexemes of a pattern, in which brackets may start `classes` or are
    literal. -/
def lexFrom? (classes : Bool) (pattern : List Char) : Option (List Lexeme) :=
  match pattern with
  | [] => some []
  | '\\' :: [] => none
  | '\\' :: d :: cs => (lexFrom? classes cs).map (.literal d :: ·)
  | c :: cs =>
    if c = '[' && classes then
      match h : readSet cs with
      | .closed negated ranges rest =>
        have : rest.length ≤ cs.length := (readSet_suffix h).length_le
        (lexFrom? classes rest).map (.set negated ranges :: ·)
      | .unclosed => (lexFrom? false cs).map (.literal '[' :: ·)
      | .backwards => none
    else (lexFrom? classes cs).map (.ofChar c :: ·)
  termination_by pattern.length

/-- The lexemes of a pattern. -/
def lex? (pattern : List Char) : Option (List Lexeme) :=
  lexFrom? true pattern

end MissionText.Glob
