/-
  What the matchers of directives find in a line.

  A line can often be read as a directive in more than one way: it may have several
  comment marks, and a key may be taken shorter than it is.

  * `Grammar`: the ways in which a directive is written, and which of two ways with
    one start is preferred.  `Grammar.FindsFirst` says that a matcher finds
    something exactly in the lines that have a reading, and then what the leftmost
    and preferred reading captures, which is one reading only.
  * `Grammar.IsReadBy.findsFirst`: a reader that reads the grammar from the front of a
    text finds its first reading along a line.
  * `shortGrammar`, `blockGrammar`: the grammar of the short form, and that of the
    header of a block.
  * `findsFirst_directives`: the two matchers find the first readings of a line,
    that of block headers although it sees the line with its white space collapsed.
-/
import MissionText.Proofs.Script.BlockHeader

namespace MissionText

/-! ## Grammars -/

/-- The ways in which something is written, and what they stand for. -/
structure Grammar (D α : Type) where
  /-- The text of a reading. -/
  chars : D → List Char
  IsProper : D → Prop
  /-- Of two readings from one place, the first is taken. -/
  Prefers : D → D → Prop
  captured : D → α

/-- A reading that starts somewhere in a line. -/
structure Located (D : Type) where
  before : List Char
  reading : D

namespace Grammar

variable {D α : Type}

/-- The line is read in this way. -/
def Reads (g : Grammar D α) (line : List Char) (r : Located D) : Prop :=
  g.IsProper r.reading ∧ line = r.before ++ g.chars r.reading

/-- The reading of the line starts leftmost, and is preferred to the others that
    start there. -/
def IsFirst (g : Grammar D α) (line : List Char) (r : Located D) : Prop :=
  g.Reads line r ∧ ∀ r', g.Reads line r' → r.before.length < r'.before.length ∨
    (r.before.length = r'.before.length ∧ g.Prefers r.reading r'.reading)

/-- What is found in a line is the first reading of it. -/
structure FindsFirst (g : Grammar D α) (line : List Char) (found : Option α) : Prop where
  /-- Something is found if there is a reading at all. -/
  isSome_iff : found.isSome = true ↔ ∃ r, g.Reads line r
  captures : ∀ a, found = some a ↔ ∃ r, g.IsFirst line r ∧ g.captured r.reading = a
  /-- There is only one first reading. -/
  unique : ∀ r r', g.IsFirst line r → g.IsFirst line r' → r = r'

/-- A reader reads the grammar from the front of a text. -/
structure IsReadBy (g : Grammar D α) (f : List Char → Option α) : Prop where
  complete : ∀ d, g.IsProper d → (f (g.chars d)).isSome = true
  captures : ∀ cs a, f cs = some a → ∃ d, g.IsProper d ∧ g.chars d = cs ∧
    (∀ d', g.IsProper d' → g.chars d' = cs → g.Prefers d d') ∧ g.captured d = a
  unique : ∀ d d', g.IsProper d → g.IsProper d' → g.chars d = g.chars d' →
    g.Prefers d d' → g.Prefers d' d → d = d'

end Grammar

/-- A match along a text is the leftmost one. -/
theorem firstSuffix?_eq_some_iff {α : Type} {f : List Char → Option α} {cs : List Char} {a : α} :
    firstSuffix? f cs = some a ↔ ∃ xs ys, cs = xs ++ ys ∧ f ys = some a ∧
      ∀ xs' ys', cs = xs' ++ ys' → (f ys').isSome = true → xs.length ≤ xs'.length := by
  induction cs with
  | nil =>
    constructor
    · intro h
      exact ⟨[], [], rfl, h, fun _ _ _ _ => Nat.zero_le _⟩
    · rintro ⟨xs, ys, hnil, hf, -⟩
      obtain ⟨rfl, rfl⟩ := List.nil_eq_append_iff.1 hnil
      exact hf
  | cons c cs ih =>
    rcases hc : f (c :: cs) with _ | b
    · rw [firstSuffix?_cons_of_none hc, ih]
      constructor
      · rintro ⟨xs, ys, rfl, hf, hleft⟩
        refine ⟨c :: xs, ys, rfl, hf, fun xs' ys' heq hsome => ?_⟩
        rcases xs' with _ | ⟨x, xs'⟩
        · rw [List.nil_append] at heq
          rw [← heq, hc] at hsome
          cases hsome
        · exact Nat.succ_le_succ (hleft xs' ys' (List.cons.inj heq).2 hsome)
      · rintro ⟨xs, ys, heq, hf, hleft⟩
        rcases xs with _ | ⟨x, xs⟩
        · rw [List.nil_append] at heq
          rw [← heq, hc] at hf
          cases hf
        · obtain ⟨rfl, rfl⟩ := List.cons.inj heq
          refine ⟨xs, ys, rfl, hf, fun xs' ys' heq' hsome => ?_⟩
          exact Nat.le_of_succ_le_succ (hleft (c :: xs') ys' (by rw [heq', List.cons_append]) hsome)
    · rw [firstSuffix?_of_some hc]
      constructor
      · rintro h
        exact ⟨[], c :: cs, rfl, hc.trans h, fun _ _ _ _ => Nat.zero_le _⟩
      · rintro ⟨xs, ys, heq, hf, hleft⟩
        have hzero := hleft [] (c :: cs) rfl (by rw [hc]; rfl)
        obtain rfl : xs = [] := List.length_eq_zero_iff.1 (Nat.le_zero.1 hzero)
        rw [List.nil_append] at heq
        rw [← hc, heq, hf]

namespace Grammar.IsReadBy

variable {D α : Type} {g : Grammar D α} {f : List Char → Option α} {line : List Char}

theorem exists_reads (h : g.IsReadBy f) {xs ys : List Char} (heq : line = xs ++ ys)
    (hsome : (f ys).isSome = true) : ∃ r, g.Reads line r ∧ r.before = xs := by
  obtain ⟨a, hf⟩ := Option.isSome_iff_exists.1 hsome
  obtain ⟨d, hd, rfl, -, -⟩ := h.captures ys a hf
  exact ⟨⟨xs, d⟩, ⟨hd, heq⟩, rfl⟩

theorem eq_of_isFirst (h : g.IsReadBy f) {r r' : Located D} (hr : g.IsFirst line r)
    (hr' : g.IsFirst line r') : r = r' := by
  obtain ⟨xs, d⟩ := r
  obtain ⟨xs', d'⟩ := r'
  obtain ⟨⟨hd, heq⟩, hfirst⟩ := hr
  obtain ⟨⟨hd', heq'⟩, hfirst'⟩ := hr'
  have hle := hfirst ⟨xs', d'⟩ ⟨hd', heq'⟩
  have hle' := hfirst' ⟨xs, d⟩ ⟨hd, heq⟩
  dsimp only at heq heq' hle hle'
  obtain ⟨hlength, hprefers⟩ := hle.resolve_left (by omega)
  obtain ⟨-, hprefers'⟩ := hle'.resolve_left (by omega)
  obtain ⟨rfl, hchars⟩ := List.append_inj (heq.symm.trans heq') hlength
  rw [h.unique d d' hd hd' hchars hprefers hprefers']

/-- What is read from the front of a text is what its preferred reading captures. -/
theorem eq_captured (h : g.IsReadBy f) {d : D} (hd : g.IsProper d)
    (hprefers : ∀ d', g.IsProper d' → g.chars d' = g.chars d → g.Prefers d d') :
    f (g.chars d) = some (g.captured d) := by
  obtain ⟨a, hf⟩ := Option.isSome_iff_exists.1 (h.complete d hd)
  obtain ⟨d', hd', hchars, hprefers', rfl⟩ := h.captures _ a hf
  rw [hf, h.unique d d' hd hd' hchars.symm (hprefers d' hd' hchars) (hprefers' d hd rfl)]

theorem firstSuffix?_eq_some_iff_isFirst (h : g.IsReadBy f) {a : α} :
    firstSuffix? f line = some a ↔ ∃ r, g.IsFirst line r ∧ g.captured r.reading = a := by
  rw [firstSuffix?_eq_some_iff]
  constructor
  · rintro ⟨xs, ys, heq, hf, hleft⟩
    obtain ⟨d, hd, rfl, hprefers, hcaptured⟩ := h.captures ys a hf
    refine ⟨⟨xs, d⟩, ⟨⟨hd, heq⟩, ?_⟩, hcaptured⟩
    rintro ⟨xs', d'⟩ ⟨hd', heq'⟩
    dsimp only at heq' ⊢
    rcases (hleft xs' _ heq' (h.complete d' hd')).lt_or_eq with hlt | hlength
    · exact .inl hlt
    · obtain ⟨rfl, hchars⟩ := List.append_inj (heq.symm.trans heq') hlength
      exact .inr ⟨rfl, hprefers d' hd' hchars.symm⟩
  · rintro ⟨⟨xs, d⟩, ⟨⟨hd, heq⟩, hfirst⟩, rfl⟩
    refine ⟨xs, g.chars d, heq, h.eq_captured hd fun d' hd' hchars => ?_, ?_⟩
    · have hle := hfirst ⟨xs, d'⟩ ⟨hd', by rw [heq, hchars]⟩
      exact (hle.resolve_left (Nat.lt_irrefl _)).2
    · intro xs' ys' heq' hsome
      obtain ⟨r, hr, rfl⟩ := h.exists_reads heq' hsome
      rcases hfirst r hr with hlt | ⟨hlength, -⟩
      · exact hlt.le
      · exact hlength.le

theorem isSome_firstSuffix?_iff_reads (h : g.IsReadBy f) :
    (firstSuffix? f line).isSome = true ↔ ∃ r, g.Reads line r := by
  rw [← Option.ne_none_iff_isSome, ne_eq, firstSuffix?_eq_none_iff]
  push Not
  constructor
  · rintro ⟨ys, ⟨xs, heq⟩, hf⟩
    obtain ⟨r, hr, -⟩ := h.exists_reads heq.symm (Option.ne_none_iff_isSome.1 hf)
    exact ⟨r, hr⟩
  · rintro ⟨r, hr, heq⟩
    exact ⟨_, ⟨r.before, heq.symm⟩, Option.ne_none_iff_isSome.2 (h.complete r.reading hr)⟩

/-- **A reader along a line finds the first reading** of it. -/
theorem findsFirst (h : g.IsReadBy f) (line : List Char) :
    g.FindsFirst line (firstSuffix? f line) where
  isSome_iff := h.isSome_firstSuffix?_iff_reads
  captures _ := h.firstSuffix?_eq_some_iff_isFirst
  unique _ _ := h.eq_of_isFirst

end Grammar.IsReadBy

/-! ## Headers -/

/-- A header as it is written, with the white space before each of its words. -/
structure HeaderReading where
  blank : List Char
  beforePackage : List Char
  beforeContainer : List Char
  beforeKey : List Char
  header : Header

namespace HeaderReading

/-- The text of a header, up to its key. -/
def chars (r : HeaderReading) : List Char :=
  r.blank ++ 'T' :: 'R' :: (r.beforePackage ++ (r.header.package ++ (r.beforeContainer ++
    (r.header.container ++ (r.beforeKey ++ r.header.key)))))

/-- White space stands where it may or must, and tokens between it. -/
structure IsProper (r : HeaderReading) : Prop where
  blank : IsBlank r.blank
  beforePackage : IsGap r.beforePackage
  beforeContainer : IsGap r.beforeContainer
  beforeKey : IsGap r.beforeKey
  package : IsToken r.header.package
  container : IsToken r.header.container
  key : IsToken r.header.key

end HeaderReading

theorem Header.writtenAs_iff {h : Header} {cs : List Char} :
    h.WrittenAs cs ↔ ∃ r : HeaderReading, r.IsProper ∧ r.header = h ∧ r.chars = cs := by
  constructor
  · rintro ⟨hp, hc, hk, blank, gap, gap', gap'', hblank, hgap, hgap', hgap'', rfl⟩
    exact ⟨⟨blank, gap, gap', gap'', h⟩, ⟨hblank, hgap, hgap', hgap'', hp, hc, hk⟩, rfl, rfl⟩
  · rintro ⟨r, hr, rfl, rfl⟩
    exact ⟨hr.package, hr.container, hr.key, r.blank, r.beforePackage, r.beforeContainer,
      r.beforeKey, hr.blank, hr.beforePackage, hr.beforeContainer, hr.beforeKey, rfl⟩

/-- A run of characters of a class, in front of a text that does not go on with one,
    is determined by the whole. -/
theorem append_inj_of_startsOutside {p : Char → Bool} {xs xs' ys ys' : List Char}
    (hx : ∀ c ∈ xs, p c = true) (hx' : ∀ c ∈ xs', p c = true) (hy : StartsOutside p ys)
    (hy' : StartsOutside p ys') (h : xs ++ ys = xs' ++ ys') : xs = xs' ∧ ys = ys' := by
  have htake := congrArg (List.takeWhile p) h
  have hdrop := congrArg (List.dropWhile p) h
  rw [List.takeWhile_append_of_pos hx, List.takeWhile_append_of_pos hx', hy.takeWhile,
    hy'.takeWhile, List.append_nil, List.append_nil] at htake
  rw [List.dropWhile_append_of_pos hx, List.dropWhile_append_of_pos hx', hy.dropWhile,
    hy'.dropWhile] at hdrop
  exact ⟨htake, hdrop⟩

/-- Two headers that are written in front of one text are the same up to the key. -/
theorem HeaderReading.eq_of_chars_append {r r' : HeaderReading} (hr : r.IsProper)
    (hr' : r'.IsProper) {cs cs' : List Char} (h : r.chars ++ cs = r'.chars ++ cs') :
    r = { r' with header := { r'.header with key := r.header.key } } ∧
      r.header.key ++ cs = r'.header.key ++ cs' := by
  obtain ⟨blank, gap, gap', gap'', package, container, key⟩ := r
  obtain ⟨blank₁, gap₁, gap₁', gap₁'', package₁, container₁, key₁⟩ := r'
  obtain ⟨hblank, hgap, hgap', hgap'', hp, hc, hk⟩ := hr
  obtain ⟨hblank₁, hgap₁, hgap₁', hgap₁'', hp₁, hc₁, hk₁⟩ := hr'
  dsimp only at hblank hgap hgap' hgap'' hp hc hk hblank₁ hgap₁ hgap₁' hgap₁'' hp₁ hc₁ hk₁
  simp only [chars, List.append_assoc, List.cons_append] at h
  have hmark : ∀ cs, StartsOutside isSpace ('T' :: cs) := fun cs =>
    startsOutside_cons.2 (by decide)
  obtain ⟨e₁, h⟩ := append_inj_of_startsOutside hblank hblank₁ (hmark _) (hmark _) h
  simp only [List.cons.injEq, true_and] at h
  obtain ⟨e₂, h⟩ := append_inj_of_startsOutside hgap.2 hgap₁.2 (hp.startsOutside _)
    (hp₁.startsOutside _) h
  obtain ⟨e₃, h⟩ := append_inj_of_startsOutside hp.2 hp₁.2 (hgap'.startsOutside _)
    (hgap₁'.startsOutside _) h
  obtain ⟨e₄, h⟩ := append_inj_of_startsOutside hgap'.2 hgap₁'.2 (hc.startsOutside _)
    (hc₁.startsOutside _) h
  obtain ⟨e₅, h⟩ := append_inj_of_startsOutside hc.2 hc₁.2 (hgap''.startsOutside _)
    (hgap₁''.startsOutside _) h
  obtain ⟨e₆, h⟩ := append_inj_of_startsOutside hgap''.2 hgap₁''.2 (hk.startsOutside _)
    (hk₁.startsOutside _) h
  exact ⟨by rw [e₁, e₂, e₃, e₄, e₅, e₆], h⟩

/-! ## The short form -/

/-- A directive of the short form as it is written, and what follows it. -/
structure ShortReading where
  header : HeaderReading
  beforeText : List Char
  text : List Char
  after : List Char

/-- The short form: two slashes, a header, and a text without quotes between
    quotes. -/
def shortGrammar : Grammar ShortReading (Header × List Char) where
  chars r := '/' :: '/' ::
    (r.header.chars ++ (r.beforeText ++ '"' :: (r.text ++ '"' :: r.after)))
  IsProper r := r.header.IsProper ∧ IsGap r.beforeText ∧ '"' ∉ r.text
  Prefers _ _ := True
  captured r := (r.header.header, r.text)

/-- **The short form is read** from the front of a text, in the one way in which it
    can be read there. -/
theorem isReadBy_shortForm? : shortGrammar.IsReadBy shortForm? where
  complete := by
    rintro ⟨r, gap, text, rest⟩ ⟨hr, hgap, htext⟩
    have hwritten := Header.writtenAs_iff.2 ⟨r, hr, rfl, rfl⟩
    have hread := shortForm?_eq_some_iff.2 ⟨r.chars, gap, rest, hwritten, hgap, htext, rfl⟩
    exact Option.isSome_iff_exists.2 ⟨_, hread⟩
  captures := by
    rintro cs ⟨h, text⟩ hread
    obtain ⟨_, gap, rest, hwritten, hgap, htext, rfl⟩ := shortForm?_eq_some_iff.1 hread
    obtain ⟨r, hr, rfl, rfl⟩ := Header.writtenAs_iff.1 hwritten
    exact ⟨⟨r, gap, text, rest⟩, ⟨hr, hgap, htext⟩, rfl, fun _ _ _ => trivial, rfl⟩
  unique := by
    rintro ⟨r, gap, text, rest⟩ ⟨r', gap', text', rest'⟩ ⟨hr, hgap, htext⟩ ⟨hr', hgap', htext'⟩ h - -
    dsimp only at hr hr' hgap hgap' htext htext'
    simp only [shortGrammar, List.cons.injEq, true_and] at h
    obtain ⟨heq, h⟩ := HeaderReading.eq_of_chars_append hr hr' h
    obtain ⟨hkey, h⟩ := append_inj_of_startsOutside hr.key.2 hr'.key.2 (hgap.startsOutside _)
      (hgap'.startsOutside _) h
    have hquote : ∀ cs, StartsOutside isSpace ('"' :: cs) := fun cs =>
      startsOutside_cons.2 (by decide)
    obtain ⟨hbefore, h⟩ := append_inj_of_startsOutside hgap.2 hgap'.2 (hquote _) (hquote _) h
    simp only [List.cons.injEq, true_and] at h
    have hfree {cs : List Char} (hcs : '"' ∉ cs) : ∀ c ∈ cs, (c != '"') = true := fun c hc => by
      simpa using fun heq : c = '"' => hcs (heq ▸ hc)
    have hend : ∀ cs, StartsOutside (· != '"') ('"' :: cs) := fun cs =>
      startsOutside_cons.2 (by decide)
    obtain ⟨hsame, h⟩ := append_inj_of_startsOutside (hfree htext) (hfree htext') (hend _) (hend _) h
    simp only [List.cons.injEq, true_and] at h
    rw [heq, hkey, hbefore, hsame, h]

/-! ## Block headers -/

/-- The header of a block as it is written, and what follows it. -/
structure BlockReading where
  header : HeaderReading
  after : List Char

/-- The header of a block: the start of a comment and a header, the longer the
    key the better. -/
def blockGrammar : Grammar BlockReading Header where
  chars r := '/' :: '*' :: (r.header.chars ++ r.after)
  IsProper r := r.header.IsProper
  Prefers r r' := r'.header.header.key.length ≤ r.header.header.key.length
  captured r := r.header.header

/-- The key of a header can be taken with all token characters that follow it. -/
theorem HeaderReading.exists_longest {r : HeaderReading} (hr : r.IsProper) (cs : List Char) :
    ∃ r' : HeaderReading, r'.IsProper ∧ StartsOutside isTokenChar (cs.dropWhile isTokenChar) ∧
      r.chars ++ cs = r'.chars ++ cs.dropWhile isTokenChar := by
  refine ⟨{ r with header := { r.header with
    key := r.header.key ++ cs.takeWhile isTokenChar } }, { hr with key := ?_ },
    startsOutside_dropWhile _ _, ?_⟩
  · refine ⟨by simp [hr.key.1], fun c hc => ?_⟩
    rcases List.mem_append.1 hc with hc | hc
    · exact hr.key.2 c hc
    · exact List.mem_takeWhile_imp hc
  · simp only [chars, List.append_assoc, List.cons_append, List.takeWhile_append_dropWhile]

/-- **The header of a block is read** from the front of a text, with a key as long as
    it goes. -/
theorem isReadBy_header? : blockGrammar.IsReadBy Block.header? where
  complete := by
    rintro ⟨r, rest⟩ hr
    obtain ⟨r', hr', hrest, heq⟩ := HeaderReading.exists_longest hr rest
    have hread := Block.header?_eq_some_iff.2
      ⟨r'.chars, _, Header.writtenAs_iff.2 ⟨r', hr', rfl, rfl⟩, hrest, rfl⟩
    rw [← heq] at hread
    exact Option.isSome_iff_exists.2 ⟨_, hread⟩
  captures := by
    rintro cs h hread
    obtain ⟨_, rest, hwritten, hrest, rfl⟩ := Block.header?_eq_some_iff.1 hread
    obtain ⟨r, hr, rfl, rfl⟩ := Header.writtenAs_iff.1 hwritten
    refine ⟨⟨r, rest⟩, hr, rfl, ?_, rfl⟩
    rintro ⟨r', rest'⟩ hr' heq
    dsimp only [blockGrammar] at hr' heq ⊢
    simp only [List.cons.injEq, true_and] at heq
    obtain ⟨-, hkey⟩ := HeaderReading.eq_of_chars_append hr' hr heq
    -- A shorter key leaves token characters behind, a longer one takes others.
    have htake := congrArg (fun cs => (cs.takeWhile isTokenChar).length) hkey
    simp only [List.takeWhile_append_of_pos hr.key.2, List.takeWhile_append_of_pos hr'.key.2,
      hrest.takeWhile, List.length_append, List.length_nil] at htake
    omega
  unique := by
    rintro ⟨r, rest⟩ ⟨r', rest'⟩ hr hr' h hprefers hprefers'
    dsimp only [blockGrammar] at hr hr' h hprefers hprefers'
    simp only [List.cons.injEq, true_and] at h
    obtain ⟨heq, hkey⟩ := HeaderReading.eq_of_chars_append hr hr' h
    obtain ⟨hlast, hrest⟩ := List.append_inj hkey (le_antisymm hprefers' hprefers)
    rw [heq, hlast, hrest]

/-! ## Lines -/

/-- **The matchers of directives find the first readings** of a line: that of the
    short form the leftmost one, and that of block headers, which sees the line with
    its white space collapsed, the leftmost one with the longest key. -/
theorem findsFirst_directives (line : List Char) :
    shortGrammar.FindsFirst line (firstSuffix? shortForm? line) ∧
      blockGrammar.FindsFirst line
        (firstSuffix? Block.header? (Text.joinWords ' ' line)) := by
  refine ⟨isReadBy_shortForm?.findsFirst line, ?_⟩
  rw [Block.firstSuffix?_header?_joinWords]
  exact isReadBy_header?.findsFirst line

/-- No directive starts at the first mark, and the one at the second comes first. -/
example : firstSuffix? shortForm? "// TR x //TR * init greet \"Hi\" // TR a b c \"d\"".toList =
    some (⟨['*'], "init".toList, "greet".toList⟩, "Hi".toList) := by
  cbv

end MissionText
