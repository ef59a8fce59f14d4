/-
  What a block in a script declares.

  A script is read line by line: `scanFrom_cons` says what one line declares
  (`declared?`) and which block is open after it (`nextBlock?`).

  * `WrittenBlock` is a block as it stands in a script, with what stands before
    its opener and after its end.
  * `WrittenBlock.scanFrom_lines_of_open` and `_of_closed`: what it declares.
  * `scan_eq_append_directive_iff`: when that is one directive with the text inside
    the comment.  The scanner looks for an end of a comment anywhere in a line, so
    one before the opener closes the block at once, and what follows the end of
    the block is taken for text.
-/
import MissionText.Proofs.Script.BlockHeader
import MissionText.Proofs.Script.BlockText

namespace MissionText

open Text

/-! ## One line -/

/-- The block that is open after a line. -/
def nextBlock? : Option Block → List Char → Option Block
  | none, line =>
    if HasShortForm line then none
    else if HasOpener line ∧ ¬ closer <:+: line then some ⟨line, []⟩
    else none
  | some b, line => if closer <:+: line then none else some (b.add line)

/-- The directive that a line completes. -/
def declared? (base : String) : Option Block → List Char → Option Directive
  | none, line =>
    if HasShortForm line then Directive.ofLine? base line
    else if HasOpener line ∧ closer <:+: line then Block.finish base ⟨line, []⟩
    else none
  | some b, line => if closer <:+: line then (b.add line).finish base else none

/-- The block that is open after some lines. -/
def blockAfter (b? : Option Block) (lines : List (List Char)) : Option Block :=
  lines.foldl nextBlock? b?

theorem Directive.ofLine?_eq_none_iff {base : String} {line : List Char} :
    Directive.ofLine? base line = none ↔ ¬ HasShortForm line := by
  rw [ofLine?, Option.map_eq_none_iff, firstSuffix?_shortForm?_eq_none_iff]

/-- **What one line adds**: the directive that it completes, and the block that is
    open after it. -/
theorem scanFrom_cons (base : String) (b? : Option Block) (line : List Char)
    (lines : List (List Char)) :
    scanFrom base b? (line :: lines) =
      (declared? base b? line).toList ++ scanFrom base (nextBlock? b? line) lines := by
  rcases b? with _ | b
  · rw [scanFrom, declared?, nextBlock?]
    simp only [← opensBlock_iff, ← closesBlock_iff]
    rcases hline : Directive.ofLine? base line with _ | d
    · have hshort := Directive.ofLine?_eq_none_iff.1 hline
      rw [if_neg hshort, if_neg hshort]
      cases opensBlock line <;> cases closesBlock line <;> rfl
    · have hshort : HasShortForm line := by
        by_contra hno
        rw [Directive.ofLine?_eq_none_iff.2 hno] at hline
        cases hline
      rw [if_pos hshort, if_pos hshort]
      rfl
  · rw [scanFrom, declared?, nextBlock?]
    simp only [← closesBlock_iff]
    cases closesBlock line <;> rfl

/-- **A script is read in parts**, each from the block that the one before leaves
    open. -/
theorem scanFrom_append (base : String) (b? : Option Block) (lines lines' : List (List Char)) :
    scanFrom base b? (lines ++ lines') =
      scanFrom base b? lines ++ scanFrom base (blockAfter b? lines) lines' := by
  induction lines generalizing b? with
  | nil =>
    rw [scanFrom]
    rfl
  | cons line lines ih =>
    rw [List.cons_append, scanFrom_cons, scanFrom_cons, ih, List.append_assoc]
    rfl

/-- A line that neither declares a text nor opens a block. -/
def IsPlain (line : List Char) : Prop := ¬ HasShortForm line ∧ ¬ HasOpener line

instance (line : List Char) : Decidable (IsPlain line) := inferInstanceAs (Decidable (_ ∧ _))

theorem declared?_of_isPlain {line : List Char} (h : IsPlain line) (base : String) :
    declared? base none line = none ∧ nextBlock? none line = none := by
  simp [declared?, nextBlock?, h.1, h.2]

theorem scanFrom_of_isPlain {lines : List (List Char)} (h : ∀ line ∈ lines, IsPlain line)
    (base : String) (after : List (List Char)) :
    scanFrom base none (lines ++ after) = scanFrom base none after := by
  induction lines with
  | nil => rfl
  | cons line lines ih =>
    obtain ⟨hline, hlines⟩ := List.forall_mem_cons.1 h
    obtain ⟨hnone, hnext⟩ := declared?_of_isPlain hline base
    rw [List.cons_append, scanFrom_cons, hnone, hnext, ih hlines]
    rfl

theorem IsBlank.isPlain {line : List Char} (h : IsBlank line) : IsPlain line := by
  have hslash : '/' ∉ line := fun hmem => absurd (h '/' hmem) (by decide)
  constructor
  · rintro ⟨_, ⟨_, _, _, _, -, -, -, rfl⟩, hin⟩
    exact hslash (hin.subset List.mem_cons_self)
  · rintro ⟨_, ⟨_, -, rfl⟩, hin⟩
    exact hslash (hin.subset List.mem_cons_self)

/-! ## Blocks -/

/-- Text that stands between the lines of a block belongs to one of them. -/
theorem isInfix_append_cons {u xs ys : List Char} {s : Char} (hs : s ∉ u)
    (h : u <:+: xs ++ s :: ys) : u <:+: xs ∨ u <:+: ys := by
  obtain ⟨as, bs, heq⟩ := h
  rcases List.append_eq_append_iff.1 heq with ⟨cs, rfl, -⟩ | ⟨cs, hcs, hys⟩
  · exact .inl ⟨as, cs, rfl⟩
  · rcases cs with _ | ⟨c, cs⟩
    · exact .inl ⟨as, [], by simpa using hcs⟩
    · obtain ⟨rfl, rfl⟩ := List.cons.inj hys
      rcases List.append_eq_append_iff.1 hcs with ⟨ds, -, hds⟩ | ⟨ds, -, hds⟩
      · have hmem : s ∈ u := by simp [hds]
        exact absurd hmem hs
      · rcases ds with _ | ⟨d, ds⟩
        · have hmem : s ∈ u := by
            rw [List.nil_append] at hds
            simp [← hds]
          exact absurd hmem hs
        · obtain ⟨rfl, rfl⟩ := List.cons.inj hds
          exact .inr ⟨ds, bs, rfl⟩

theorem not_isInfix_intercalate {u : List Char} (hu : u ≠ []) (hs : ' ' ∉ u)
    {ls : List (List Char)} (h : ∀ l ∈ ls, ¬ u <:+: l) : ¬ u <:+: List.intercalate [' '] ls := by
  induction ls with
  | nil => simpa using hu
  | cons l ls ih =>
    obtain ⟨hl, hls⟩ := List.forall_mem_cons.1 h
    cases ls with
    | nil => simpa using hl
    | cons l' ls =>
      rw [List.intercalate_cons_cons, List.append_assoc, List.singleton_append]
      intro hin
      rcases isInfix_append_cons hs hin with hin | hin
      · exact hl hin
      · exact ih hls hin

theorem intercalate_concat_append (ls : List (List Char)) (xs ys : List Char) :
    List.intercalate [' '] (ls ++ [xs ++ ys]) = List.intercalate [' '] (ls ++ [xs]) ++ ys := by
  induction ls with
  | nil => simp
  | cons l ls ih =>
    rcases ls with _ | ⟨l', ls⟩
    · simp [List.intercalate_cons_cons]
    · simp only [List.cons_append, List.intercalate_cons_cons] at ih ⊢
      rw [ih]
      simp only [List.append_assoc]

theorem flatMap_concat_space (ls : List (List Char)) (l : List Char) :
    (ls ++ [l]).flatMap (· ++ [' ']) = List.intercalate [' '] (ls ++ [l]) ++ [' '] := by
  induction ls with
  | nil => simp
  | cons l' ls ih =>
    rw [List.cons_append, List.flatMap_cons, ih]
    rcases ls with _ | ⟨l'', ls⟩
    · simp [List.intercalate_cons_cons]
    · simp [List.intercalate_cons_cons]

/-- Lines inside a block are collected. -/
theorem blockAfter_body (b : Block) {lines : List (List Char)}
    (h : ∀ line ∈ lines, ¬ closer <:+: line) (base : String) :
    scanFrom base (some b) lines = [] ∧
      blockAfter (some b) lines = some ⟨b.opening, b.body ++ lines.flatMap (· ++ [' '])⟩ := by
  induction lines generalizing b with
  | nil => simp [scanFrom, blockAfter]
  | cons line lines ih =>
    obtain ⟨hline, hlines⟩ := List.forall_mem_cons.1 h
    obtain ⟨hnone, hopen⟩ := ih (b.add line) hlines
    have hnext : nextBlock? (some b) line = some (b.add line) := if_neg hline
    have hdeclared : declared? base (some b) line = none := if_neg hline
    constructor
    · rw [scanFrom_cons, hnext, hdeclared, hnone]
      rfl
    · rw [blockAfter, List.foldl_cons, hnext, ← blockAfter, hopen, Block.add]
      simp

/-- A block as it stands in a script. -/
structure WrittenBlock where
  /-- What stands before the opener in its line. -/
  before : List Char
  header : Header
  /-- The header as it is written, after the opener's slash and star. -/
  spelling : List Char
  body : List (List Char)
  /-- What stands before the end of the comment in its line. -/
  last : List Char
  /-- What stands after it. -/
  rest : List Char
  isWritten : header.WrittenAs spelling
  noOpener : ¬ HasOpener before
  noShortForm : ¬ HasShortForm (before ++ '/' :: '*' :: spelling)
  open_in_body : ∀ line ∈ body, ¬ closer <:+: line
  open_in_last : ¬ closer <:+: last

namespace WrittenBlock

variable (b : WrittenBlock)

def opening : List Char := b.before ++ '/' :: '*' :: b.spelling

def closing : List Char := b.last ++ '*' :: '/' :: b.rest

def lines : List (List Char) := b.opening :: (b.body ++ [b.closing])

/-- The directive that the comment declares. -/
def directive (base : String) : Directive :=
  b.header.directive base (plainText (b.body ++ [b.last]))

/-- The text that the scanner takes the comment to have. -/
def scannedText : String :=
  String.ofList (joinWords ' ' (escapeAngles
    (dropCommentEnds (List.intercalate [' '] (b.body ++ [b.closing])))))

theorem noShortForm_opening : ¬ HasShortForm b.opening := b.noShortForm

theorem hasOpener_opening : HasOpener b.opening := by
  obtain ⟨-, -, -, blank, _, _, _, hblank, -, -, -, hspelling⟩ := b.isWritten
  refine ⟨_, ⟨blank, hblank, rfl⟩, ?_⟩
  rw [opening, hspelling]
  exact ⟨b.before, _, by simp only [List.append_assoc, List.cons_append, List.nil_append]; rfl⟩

/-- A block of the opening line declares what its header names. -/
theorem finish_eq (base : String) (body : List Char) :
    Block.finish base ⟨b.opening, body⟩ =
      some (b.header.directive base (Block.text ⟨b.opening, body⟩)) := by
  have hheader : firstSuffix? Block.header? (joinWords ' ' b.opening) = some b.header := by
    rw [Block.firstSuffix?_header?_joinWords, opening]
    exact Block.firstSuffix?_header?_append b.noOpener b.isWritten
  rw [Block.finish, hheader]
  rfl

variable (base : String) (after : List (List Char))

/-- A block whose first line has the end of a comment is closed by it, without a
    text, and its other lines are read like any others. -/
theorem scanFrom_lines_of_closed (h : closer <:+: b.opening) :
    scanFrom base none (b.lines ++ after) =
      b.header.directive base "" :: scanFrom base none (b.body ++ b.closing :: after) := by
  have hdeclared : declared? base none b.opening = some (b.header.directive base "") := by
    have htext : Block.text ⟨b.opening, []⟩ = "" := by
      simp [Block.text, escapeAngles, dropCommentEnds_nil, joinWords, words_nil]
    rw [declared?, if_neg b.noShortForm_opening, if_pos ⟨b.hasOpener_opening, h⟩, b.finish_eq,
      htext]
  have hnext : nextBlock? none b.opening = none := by
    rw [nextBlock?, if_neg b.noShortForm_opening, if_neg fun hand => hand.2 h]
  rw [lines, List.cons_append, scanFrom_cons, hdeclared, hnext, List.append_assoc]
  rfl

/-- Any other block is closed by its last line, with that line in its text. -/
theorem scanFrom_lines_of_open (h : ¬ closer <:+: b.opening) :
    scanFrom base none (b.lines ++ after) =
      b.header.directive base b.scannedText :: scanFrom base none after := by
  have hdeclared : declared? base none b.opening = none := by
    rw [declared?, if_neg b.noShortForm_opening, if_neg fun hand => h hand.2]
  have hnext : nextBlock? none b.opening = some ⟨b.opening, []⟩ := by
    rw [nextBlock?, if_neg b.noShortForm_opening, if_pos ⟨b.hasOpener_opening, h⟩]
  obtain ⟨hnone, hopen⟩ := blockAfter_body ⟨b.opening, []⟩ b.open_in_body base
  have hclosing : closer <:+: b.closing := ⟨b.last, b.rest, by simp [closing, closer]⟩
  rw [lines, List.cons_append, scanFrom_cons, hdeclared, hnext, List.append_assoc, scanFrom_append,
    hnone, hopen, List.singleton_append, scanFrom_cons, declared?, nextBlock?, if_pos hclosing,
    if_pos hclosing, Block.add, finish_eq]
  have htext : Block.text ⟨b.opening, [] ++ b.body.flatMap (· ++ [' ']) ++ b.closing ++ [' ']⟩ =
      b.scannedText := by
    have hbody : b.body.flatMap (· ++ [' ']) ++ b.closing ++ [' '] =
        List.intercalate [' '] (b.body ++ [b.closing]) ++ [' '] := by
      rw [← flatMap_concat_space]
      simp
    rw [Block.text, scannedText, List.nil_append, hbody, dropCommentEnds_escapeAngles,
      dropCommentEnds_concat_space, escapeAngles_append, joinWords_eq_iff.2]
    exact words_append_blank _ (isBlank_singleton (by decide))
  rw [htext]
  rfl

/-- **The text of a block is what is inside the comment** exactly if nothing but
    white space and more ends of comments follows it in its last line. -/
theorem scannedText_eq_iff :
    b.scannedText = plainText (b.body ++ [b.last]) ↔ IsBlank (dropCommentEnds b.rest) := by
  have hinside : ¬ closer <:+: List.intercalate [' '] (b.body ++ [b.last]) := by
    refine not_isInfix_intercalate (by decide) (by decide) fun line hline => ?_
    rcases List.mem_append.1 hline with hline | hline
    · exact b.open_in_body line hline
    · rw [List.mem_singleton.1 hline]
      exact b.open_in_last
  obtain ⟨kept, blank, hkept, hblank, hdrop⟩ := dropCommentEnds_append hinside b.rest
  have hscanned : b.scannedText = String.ofList (joinWords ' '
      (escapeAngles kept ++ escapeAngles (dropCommentEnds b.rest))) := by
    rw [scannedText, closing, intercalate_concat_append, hdrop, escapeAngles_append]
  have hplain : plainText (b.body ++ [b.last]) =
      String.ofList (joinWords ' ' (escapeAngles kept)) := by
    rw [plainText, hkept, escapeAngles_append, escapeAngles_of_isBlank hblank,
      joinWords_eq_iff.2 (words_append_blank _ hblank)]
  rw [hscanned, hplain, String.ofList_inj, joinWords_eq_iff]
  constructor
  · intro hwords
    have hflat := congrArg List.flatten hwords
    rw [flatten_words, flatten_words, List.filter_append, List.append_right_eq_self,
      List.filter_eq_nil_iff] at hflat
    exact isBlank_escapeAngles_iff.1 fun c hc => by simpa using hflat c hc
  · intro hrest
    rw [escapeAngles_of_isBlank hrest, words_append_blank _ hrest]

/-- **What a block declares** is one directive with the text inside the comment,
    and the lines after it are read on their own, exactly if its first line has no
    end of a comment and nothing follows the one in its last line.  The first
    line may also have one if there is no text, and the last line declares
    nothing. -/
theorem scanFrom_lines_eq_iff :
    scanFrom base none (b.lines ++ after) = b.directive base :: scanFrom base none after ↔
      ¬ closer <:+: b.opening ∧ IsBlank (dropCommentEnds b.rest) ∨
        closer <:+: b.opening ∧ (∀ line ∈ b.body ++ [b.last], IsBlank line) ∧
          declared? base none b.closing = none := by
  have hdirective (text text' : String) (ds ds' : List Directive) :
      b.header.directive base text :: ds = b.header.directive base text' :: ds' ↔
        text = text' ∧ ds = ds' := by
    simp [Header.directive]
  by_cases h : closer <:+: b.opening
  · rw [b.scanFrom_lines_of_closed base after h, directive, hdirective,
      eq_comm (a := ""), plainText_eq_empty_iff]
    simp only [h, not_true_eq_false, false_and, true_and, false_or]
    refine and_congr_right fun hblank => ?_
    have hbody : ∀ line ∈ b.body, IsPlain line := fun line hline =>
      (hblank line (List.mem_append_left _ hline)).isPlain
    have hclosing : closer <:+: b.closing := ⟨b.last, b.rest, by simp [closing, closer]⟩
    have hnext : nextBlock? none b.closing = none := by
      simp [nextBlock?, hclosing]
    rw [scanFrom_of_isPlain hbody, scanFrom_cons, hnext, List.append_left_eq_self]
    simp
  · rw [b.scanFrom_lines_of_open base after h, directive, hdirective, b.scannedText_eq_iff]
    simp [h]

end WrittenBlock

/-- **A block in a script declares one directive with the text inside the comment**
    exactly if its first line has no end of a comment and nothing follows the one in
    its last line, or the first line has one and there is nothing to lose. -/
theorem scan_eq_append_directive_iff {base : String} {content : List Char}
    {before after : List (List Char)} (b : WrittenBlock)
    (hlines : lines content = before ++ (b.lines ++ after))
    (hopen : blockAfter none before = none) :
    scan base content =
        scanFrom base none before ++ b.directive base :: scanFrom base none after ↔
      ¬ closer <:+: b.opening ∧ IsBlank (dropCommentEnds b.rest) ∨
        closer <:+: b.opening ∧ (∀ line ∈ b.body ++ [b.last], IsBlank line) ∧
          declared? base none b.closing = none := by
  rw [scan, hlines, scanFrom_append, hopen, List.append_cancel_left_eq]
  exact b.scanFrom_lines_eq_iff base after

/-- A block with one line of text, in some surroundings. -/
def greetingBlock (before last rest : List Char) (hopener : ¬ HasOpener before)
    (hshort : ¬ HasShortForm (before ++ "/* TR Main intro_scene greet".toList))
    (hlast : ¬ closer <:+: last) : WrittenBlock where
  before := before
  header := ⟨"Main".toList, "intro_scene".toList, "greet".toList⟩
  spelling := " TR Main intro_scene greet".toList
  body := []
  last := last
  rest := rest
  isWritten := ⟨by decide, by decide, by decide, [' '], [' '], [' '], [' '], by decide, by decide,
    by decide, by decide, rfl⟩
  noOpener := hopener
  noShortForm := hshort
  open_in_body := by simp
  open_in_last := hlast

theorem scan_greetingBlock :
    scan "init" "hint 1;\nhint 2; /* TR Main intro_scene greet\n  <b> you */\nhint 3;".toList =
      [⟨"Main", "intro scene", "greet", "&lt;b&gt; you"⟩] := by
  have hlines :
      lines "hint 1;\nhint 2; /* TR Main intro_scene greet\n  <b> you */\nhint 3;".toList =
        ["hint 1;".toList] ++ ((greetingBlock "hint 2; ".toList "  <b> you ".toList [] (by decide)
          (by decide) (by decide)).lines ++ ["hint 3;".toList]) := by
    decide
  have hopen : blockAfter none ["hint 1;".toList] = none := by decide
  refine ((scan_eq_append_directive_iff _ hlines hopen).2
    (.inl ⟨by decide, by decide +kernel⟩)).trans ?_
  decide +kernel

/-- Code after the end of a comment is taken for text, and the end of an earlier
    comment for the end of the block. -/
theorem scan_ne_directive_of_surroundings :
    (∃ b : WrittenBlock,
      lines "/* TR Main intro_scene greet\nHello */ hint 1;".toList = b.lines ∧
      scan "init" "/* TR Main intro_scene greet\nHello */ hint 1;".toList ≠ [b.directive "init"]) ∧
    (∃ b : WrittenBlock,
      lines "/* on start */ /* TR Main intro_scene greet\nHello */".toList = b.lines ∧
      scan "init" "/* on start */ /* TR Main intro_scene greet\nHello */".toList ≠
        [b.directive "init"]) := by
  constructor
  · refine ⟨greetingBlock [] "Hello ".toList " hint 1;".toList (by decide) (by decide) (by decide),
      by decide, ?_⟩
    decide +kernel
  · refine ⟨greetingBlock "/* on start */ ".toList "Hello ".toList [] (by decide) (by decide)
      (by decide), by decide, ?_⟩
    decide +kernel

end MissionText
