/-
  The part of TOML that a settings file can use: entries `key = value` at the
  top level, whose values are strings, integers and booleans.

  `parse?` gives the entries in the order written.  It fails for everything
  that is not TOML, and for tables, dotted keys and all other kinds of values,
  none of which a setting may have.
-/

namespace MissionText.Toml

/-- A value of an entry. -/
inductive Value where
  | string (s : String)
  | integer (n : Int)
  | boolean (b : Bool)
  deriving Repr, DecidableEq

/-! ## Characters -/

/-- White space inside a line. -/
def isGap (c : Char) : Bool := c == ' ' || c == '\t'

/-- The character may stand in a comment and, but for its delimiters, in a
    string. -/
def isPlain (c : Char) : Bool :=
  c == '\t' || (0x20 ≤ c.toNat && c.toNat != 0x7F)

/-- The character may stand in a key without quotes. -/
def isBareKeyChar (c : Char) : Bool :=
  c.isAlphanum || c == '_' || c == '-'

def skipGaps (cs : List Char) : List Char := cs.dropWhile isGap

/-- What follows a line end at the start of a text. -/
def skipNewline? : List Char → Option (List Char)
  | '\n' :: cs => some cs
  | '\r' :: '\n' :: cs => some cs
  | _ => none

/-- The value of a hexadecimal digit. -/
def hexDigit? (c : Char) : Option Nat :=
  if c.isDigit then some (c.toNat - '0'.toNat)
  else if 'a' ≤ c && c ≤ 'f' then some (c.toNat - 'a'.toNat + 10)
  else if 'A' ≤ c && c ≤ 'F' then some (c.toNat - 'A'.toNat + 10)
  else none

/-- The character of hexadecimal digits. -/
def hexChar? (digits : List Char) : Option Char := do
  let values ← digits.mapM hexDigit?
  let n := values.foldl (fun n d => n * 16 + d) 0
  if n.isValidChar then some (Char.ofNat n) else none

/-- The character of a short escape. -/
def shortEscape? : Char → Option Char
  | 'b' => some '\x08'
  | 't' => some '\t'
  | 'n' => some '\n'
  | 'f' => some '\x0C'
  | 'r' => some '\r'
  | '"' => some '"'
  | '\\' => some '\\'
  | _ => none

/-! ## Strings -/

/-- A text in front of what has been read. -/
def consRead (c : Char) : Option (List Char × List Char) → Option (List Char × List Char) :=
  Option.map fun (text, rest) => (c :: text, rest)

/-- The rest of a string in double quotes, and what follows it. -/
def basicString? : List Char → Option (List Char × List Char)
  | '"' :: cs => some ([], cs)
  | '\\' :: 'u' :: a :: b :: c :: d :: cs => do
    let x ← hexChar? [a, b, c, d]
    consRead x (basicString? cs)
  | '\\' :: 'U' :: a :: b :: c :: d :: e :: f :: g :: h :: cs => do
    let x ← hexChar? [a, b, c, d, e, f, g, h]
    consRead x (basicString? cs)
  | '\\' :: c :: cs => do
    let x ← shortEscape? c
    consRead x (basicString? cs)
  | c :: cs => if isPlain c && c != '\\' then consRead c (basicString? cs) else none
  | [] => none

/-- The rest of a string in single quotes, and what follows it. -/
def literalString? : List Char → Option (List Char × List Char)
  | '\'' :: cs => some ([], cs)
  | c :: cs => if isPlain c then consRead c (literalString? cs) else none
  | [] => none

/-- The rest of a string on several lines in double quotes, and what follows
    it.  While `skipping`, white space and line ends are dropped, as they are
    after a backslash at the end of a line. -/
def longBasicString? (skipping : Bool) : List Char → Option (List Char × List Char)
  | '"' :: '"' :: '"' :: '"' :: '"' :: cs => some (['"', '"'], cs)
  | '"' :: '"' :: '"' :: '"' :: cs => some (['"'], cs)
  | '"' :: '"' :: '"' :: cs => some ([], cs)
  | '\\' :: 'u' :: a :: b :: c :: d :: cs => do
    let x ← hexChar? [a, b, c, d]
    consRead x (longBasicString? false cs)
  | '\\' :: 'U' :: a :: b :: c :: d :: e :: f :: g :: h :: cs => do
    let x ← hexChar? [a, b, c, d, e, f, g, h]
    consRead x (longBasicString? false cs)
  | '\\' :: c :: cs =>
    if (skipNewline? (skipGaps (c :: cs))).isSome then longBasicString? true (c :: cs)
    else do
      let x ← shortEscape? c
      consRead x (longBasicString? false cs)
  | '\r' :: '\n' :: cs =>
    if skipping then longBasicString? true cs else consRead '\n' (longBasicString? false cs)
  | '\n' :: cs =>
    if skipping then longBasicString? true cs else consRead '\n' (longBasicString? false cs)
  | c :: cs =>
    if isGap c && skipping then longBasicString? true cs
    else if isPlain c && c != '\\' then consRead c (longBasicString? false cs)
    else none
  | [] => none

/-- The rest of a string on several lines in single quotes, and what follows
    it. -/
def longLiteralString? : List Char → Option (List Char × List Char)
  | '\'' :: '\'' :: '\'' :: '\'' :: '\'' :: cs => some (['\'', '\''], cs)
  | '\'' :: '\'' :: '\'' :: '\'' :: cs => some (['\''], cs)
  | '\'' :: '\'' :: '\'' :: cs => some ([], cs)
  | '\r' :: '\n' :: cs => consRead '\n' (longLiteralString? cs)
  | '\n' :: cs => consRead '\n' (longLiteralString? cs)
  | c :: cs => if isPlain c then consRead c (longLiteralString? cs) else none
  | [] => none

/-- A text without the line end at its start. -/
def dropNewline (cs : List Char) : List Char :=
  (skipNewline? cs).getD cs

/-- A string of any kind, and what follows it. -/
def string? (cs : List Char) : Option (List Char × List Char) :=
  match cs with
  | '"' :: '"' :: '"' :: cs => longBasicString? false (dropNewline cs)
  | '\'' :: '\'' :: '\'' :: cs => longLiteralString? (dropNewline cs)
  | '"' :: cs => basicString? cs
  | '\'' :: cs => literalString? cs
  | _ => none

/-! ## Integers -/

/-- The number of digits in a radix, where single underscores may stand between
    digits. -/
def digits? (radix : Nat) (cs : List Char) : Option Nat :=
  let groups := cs.splitOn '_'
  if groups.any List.isEmpty then none
  else do
    let values ← cs.filter (· != '_') |>.mapM hexDigit?
    if values.all (· < radix) then some (values.foldl (fun n d => n * radix + d) 0) else none

/-- A decimal number without a sign; only zero itself starts with a zero. -/
def decimal? (cs : List Char) : Option Nat :=
  match cs with
  | '0' :: _ :: _ => none
  | cs => digits? 10 cs

/-- The integer that a text is. -/
def integer? (cs : List Char) : Option Int :=
  match cs with
  | '0' :: 'x' :: cs => (digits? 16 cs).map Int.ofNat
  | '0' :: 'o' :: cs => (digits? 8 cs).map Int.ofNat
  | '0' :: 'b' :: cs => (digits? 2 cs).map Int.ofNat
  | '+' :: cs => (decimal? cs).map Int.ofNat
  | '-' :: cs => (decimal? cs).map fun n => -Int.ofNat n
  | cs => (decimal? cs).map Int.ofNat

/-! ## Entries -/

/-- The value of a word, which is a text without white space and comment. -/
def word? (cs : List Char) : Option Value :=
  if cs = "true".toList then some (.boolean true)
  else if cs = "false".toList then some (.boolean false)
  else (integer? cs).map .integer

/-- The character may stand in a word. -/
def isWordChar (c : Char) : Bool :=
  c.isAlphanum || c == '_' || c == '+' || c == '-'

/-- A value, and what follows it. -/
def value? (cs : List Char) : Option (Value × List Char) :=
  match cs with
  | '"' :: _ | '\'' :: _ => (string? cs).map fun (s, rest) => (.string (String.ofList s), rest)
  | _ => (word? (cs.takeWhile isWordChar)).map fun v => (v, cs.dropWhile isWordChar)

/-- A key, and what follows it. -/
def key? (cs : List Char) : Option (List Char × List Char) :=
  match cs with
  | '"' :: cs => basicString? cs
  | '\'' :: cs => literalString? cs
  | cs =>
    if (cs.takeWhile isBareKeyChar).isEmpty then none
    else some (cs.takeWhile isBareKeyChar, cs.dropWhile isBareKeyChar)

/-- The next line after white space and an optional comment; at the end of the
    text there is none. -/
def endOfLine? (cs : List Char) : Option (List Char) :=
  let cs := skipGaps cs
  let cs := if cs.head? = some '#' then cs.dropWhile isPlain else cs
  if cs.isEmpty then some [] else skipNewline? cs

/-- An entry without what follows its value, and that. -/
def entry? (cs : List Char) : Option ((String × Value) × List Char) := do
  let (key, cs) ← key? cs
  match skipGaps cs with
  | '=' :: cs =>
    let (value, cs) ← value? (skipGaps cs)
    return ((String.ofList key, value), cs)
  | _ => none

/-- The entries of a text, which has at most `fuel` lines. -/
def entriesWith? : Nat → List Char → Option (List (String × Value))
  | _, [] => some []
  | 0, _ :: _ => none
  | fuel + 1, cs =>
    match endOfLine? cs with
    | some rest => entriesWith? fuel rest
    | none => do
      let (entry, rest) ← entry? (skipGaps cs)
      let rest ← endOfLine? rest
      let entries ← entriesWith? fuel rest
      return entry :: entries

/-- The entries of a settings file. -/
def parse? (cs : List Char) : Option (List (String × Value)) :=
  let cs := match cs with
    | '\uFEFF' :: cs => cs
    | cs => cs
  entriesWith? cs.length cs

end MissionText.Toml
