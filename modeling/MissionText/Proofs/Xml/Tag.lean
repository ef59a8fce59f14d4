/-
  A written tag is read back.

  * `IsTagName` are the names that tags can carry: `<name>` and `</name>` end
    where they were meant to end and are an opening and a closing tag.  Such a
    name may still have a prefix, which the reader takes off (`localName`).
  * `IsAttributeKey` are the keys that end where they were meant to end.
  * `Markup.read_openTag`, `Markup.read_closeTag`: the markup of a written tag.
  * `tagAttributes_openContent`: the attributes of an opening tag, for every
    attribute value.
-/
import Mathlib.Data.List.Basic
import Mathlib.Data.List.TakeWhile
import MissionText.Proofs.Xml.Escape
import MissionText.Xml.Document
import MissionText.Xml.Printer

namespace MissionText.Xml

/-! ## Names -/

/-- A name that tags can carry. -/
structure IsTagName (name : String) : Prop where
  /-- No white space ends the name. -/
  noBlank : ∀ b ∈ utf8 name, isBlankByte b = false
  /-- The tag is not taken for another kind of markup. -/
  start : ∀ b, (utf8 name).head? = some b →
    b ≠ '/'.toUInt8 ∧ b ≠ '!'.toUInt8 ∧ b ≠ '?'.toUInt8
  /-- The tag is not taken for one that is closed at once. -/
  stop : (utf8 name).getLast? ≠ some '/'.toUInt8
  /-- Quotes in the name are closed, and `>` stands only between them. -/
  closed : cutTag none (utf8 name ++ ['>'.toUInt8]) = some (utf8 name, [])

instance (name : String) : Decidable (IsTagName name) :=
  decidable_of_iff
    (((utf8 name).all fun b => !isBlankByte b) = true ∧
      ((utf8 name).head?.all fun b =>
        b != '/'.toUInt8 && b != '!'.toUInt8 && b != '?'.toUInt8) = true ∧
      (utf8 name).getLast? ≠ some '/'.toUInt8 ∧
      cutTag none (utf8 name ++ ['>'.toUInt8]) = some (utf8 name, []))
    (by
      simp only [List.all_eq_true, Option.all_eq_true, Bool.not_eq_true', Bool.and_eq_true,
        bne_iff_ne, and_assoc]
      exact ⟨fun h => ⟨h.1, h.2.1, h.2.2.1, h.2.2.2⟩,
        fun h => ⟨h.noBlank, h.start, h.stop, h.closed⟩⟩)

/-- What the reader makes of a name: the part after the first colon, if there
    is one. -/
def localName (name : String) : String := lossyText (localPart (utf8 name))

/-- A key that attributes can carry. -/
def IsAttributeKey (key : String) : Prop :=
  utf8 key ≠ [] ∧ ∀ b ∈ utf8 key,
    isKeyByte b = true ∧ b ≠ '"'.toUInt8 ∧ b ≠ '\''.toUInt8 ∧ b ≠ '>'.toUInt8

/-! ## The end of a tag -/

/-- Bytes that can stand in a tag without changing where it ends: their quotes
    are closed, and `>` stands only between them. -/
def IsBalanced (xs : Bytes) : Prop :=
  ∀ bs, cutTag none (xs ++ bs) = (cutTag none bs).map fun r => (xs ++ r.1, r.2)

namespace IsBalanced

theorem nil : IsBalanced [] := fun bs => by simp

theorem append {xs ys : Bytes} (hx : IsBalanced xs) (hy : IsBalanced ys) :
    IsBalanced (xs ++ ys) := by
  intro bs
  rw [List.append_assoc, hx, hy]
  cases cutTag none bs with
  | none => rfl
  | some r => simp only [Option.map_some, List.append_assoc]

theorem of_plain {xs : Bytes}
    (h : ∀ b ∈ xs, b ≠ '"'.toUInt8 ∧ b ≠ '\''.toUInt8 ∧ b ≠ '>'.toUInt8) : IsBalanced xs := by
  intro bs
  induction xs with
  | nil => simp
  | cons x xs ih =>
    obtain ⟨h₁, h₂, h₃⟩ := h x List.mem_cons_self
    have hq : (x == '"'.toUInt8 || x == '\''.toUInt8) = false := by simp [h₁, h₂]
    rw [List.cons_append, cutTag, if_neg (by simpa using h₃), hq, if_neg (by simp),
      ih fun b hb => h b (List.mem_cons_of_mem _ hb)]
    cases cutTag none bs <;> rfl

theorem cutTag_quoted {q : UInt8} {xs : Bytes} (h : q ∉ xs) (bs : Bytes) :
    cutTag (some q) (xs ++ q :: bs) = (cutTag none bs).map fun r => (xs ++ q :: r.1, r.2) := by
  induction xs with
  | nil =>
    rw [List.nil_append, cutTag, if_pos (by simp)]
    cases cutTag none bs <;> rfl
  | cons x xs ih =>
    have hx : x ≠ q := fun he => h (he ▸ List.mem_cons_self)
    rw [List.cons_append, cutTag, if_neg (by simpa using hx),
      ih fun hm => h (List.mem_cons_of_mem _ hm)]
    cases cutTag none bs <;> rfl

theorem quoted {xs : Bytes} (h : '"'.toUInt8 ∉ xs) :
    IsBalanced ('"'.toUInt8 :: (xs ++ ['"'.toUInt8])) := by
  intro bs
  have hcut := cutTag_quoted h bs
  rw [List.cons_append, cutTag, if_neg (by decide), if_pos (by decide), List.append_assoc,
    List.singleton_append, hcut]
  cases cutTag none bs with
  | none => rfl
  | some r => simp only [Option.map_some, List.cons_append, List.append_assoc, List.nil_append]

/-- Bytes that are cut off whole before a `>` leave no quote open. -/
theorem cutTag_append {quote : Option UInt8} {xs : Bytes}
    (h : cutTag quote (xs ++ ['>'.toUInt8]) = some (xs, [])) (bs : Bytes) :
    cutTag quote (xs ++ bs) = (cutTag none bs).map fun r => (xs ++ r.1, r.2) := by
  induction xs generalizing quote with
  | nil =>
    cases quote with
    | some q => simp [cutTag] at h
    | none => simp
  | cons x xs ih =>
    cases quote with
    | some q =>
      simp only [List.cons_append, cutTag, Option.map_eq_some_iff, Prod.mk.injEq, List.cons.injEq,
        true_and, Prod.exists] at h ⊢
      obtain ⟨a, b, h, rfl, rfl⟩ := h
      rw [ih h]
      cases cutTag none bs <;> rfl
    | none =>
      simp only [List.cons_append, cutTag] at h ⊢
      split at h
      · cases h
      · next hx =>
        simp only [Option.map_eq_some_iff, Prod.mk.injEq, List.cons.injEq, true_and,
          Prod.exists] at h
        obtain ⟨a, b, h, rfl, rfl⟩ := h
        rw [if_neg hx, ih h]
        cases cutTag none bs <;> rfl

end IsBalanced

theorem IsTagName.isBalanced {name : String} (h : IsTagName name) : IsBalanced (utf8 name) :=
  IsBalanced.cutTag_append h.closed

/-! ## Written tags -/

theorem utf8_printAttribute (a : String × String) :
    utf8 (printAttribute a) =
      ' '.toUInt8 :: (utf8 a.1 ++ '='.toUInt8 ::
        '"'.toUInt8 :: (utf8 (escapeAttribute a.2) ++ ['"'.toUInt8])) := by
  have hspace : utf8 " " = [' '.toUInt8] := rfl
  have hequals : utf8 "=\"" = ['='.toUInt8, '"'.toUInt8] := rfl
  have hquote : utf8 "\"" = ['"'.toUInt8] := rfl
  simp only [printAttribute, utf8_append, hspace, hequals, hquote, List.append_assoc,
    List.cons_append, List.nil_append]

/-- The content of an opening tag. -/
def openContent (name : String) (attributes : Attributes) : Bytes :=
  utf8 name ++ attributes.flatMap fun a => utf8 (printAttribute a)

theorem utf8_openTag (name : String) (attributes : Attributes) :
    utf8 (openTag name attributes) =
      '<'.toUInt8 :: (openContent name attributes ++ ['>'.toUInt8]) := by
  have hjoin : ∀ as : Attributes,
      utf8 (String.join (as.map printAttribute)) = as.flatMap fun a => utf8 (printAttribute a) := by
    intro as
    induction as with
    | nil => rfl
    | cons a as ih => rw [List.map_cons, String.join_cons, utf8_append, ih, List.flatMap_cons]
  simp only [openTag, utf8_append, hjoin, openContent, List.append_assoc]
  rfl

theorem utf8_closeTag (name : String) :
    utf8 (closeTag name) = '<'.toUInt8 :: '/'.toUInt8 :: (utf8 name ++ ['>'.toUInt8]) := by
  simp only [closeTag, utf8_append]
  rfl

/-- The attributes of a list have keys that attributes can carry. -/
def AreAttributes (attributes : Attributes) : Prop := ∀ a ∈ attributes, IsAttributeKey a.1

theorem isBalanced_printAttribute {a : String × String} (h : IsAttributeKey a.1) :
    IsBalanced (utf8 (printAttribute a)) := by
  have hkey : IsBalanced (' '.toUInt8 :: (utf8 a.1 ++ ['='.toUInt8])) := by
    refine IsBalanced.of_plain fun b hb => ?_
    simp only [List.mem_cons, List.mem_append, List.not_mem_nil, or_false] at hb
    rcases hb with rfl | hb | rfl
    · decide
    · exact (h.2 b hb).2
    · decide
  have := hkey.append (IsBalanced.quoted (quote_notMem_escapeAttribute a.2))
  rw [utf8_printAttribute]
  simpa using this

theorem isBalanced_openContent {name : String} {attributes : Attributes} (hn : IsTagName name)
    (ha : AreAttributes attributes) : IsBalanced (openContent name attributes) := by
  refine hn.isBalanced.append ?_
  induction attributes with
  | nil => exact IsBalanced.nil
  | cons a as ih =>
    rw [List.flatMap_cons]
    exact (isBalanced_printAttribute (ha a List.mem_cons_self)).append
      (ih fun b hb => ha b (List.mem_cons_of_mem _ hb))

/-! ## Markup -/

theorem openContent_start {name : String} (attributes : Attributes) (hn : IsTagName name)
    (bs : Bytes) :
    ∃ b rest, openContent name attributes ++ '>'.toUInt8 :: bs = b :: rest ∧
      b ≠ '/'.toUInt8 ∧ b ≠ '!'.toUInt8 ∧ b ≠ '?'.toUInt8 := by
  unfold openContent
  rcases hname : utf8 name with _ | ⟨b, rest⟩
  · rcases attributes with _ | ⟨a, as⟩
    · exact ⟨_, _, rfl, by decide⟩
    · rw [List.nil_append, List.flatMap_cons, utf8_printAttribute]
      exact ⟨_, _, rfl, by decide⟩
  · exact ⟨b, _, rfl, hn.start b (by rw [hname]; rfl)⟩

theorem openContent_stop {name : String} (attributes : Attributes) (hn : IsTagName name) :
    (openContent name attributes).getLast? ≠ some '/'.toUInt8 := by
  unfold openContent
  rcases List.eq_nil_or_concat' attributes with rfl | ⟨as, a, rfl⟩
  · rw [List.flatMap_nil, List.append_nil]
    exact hn.stop
  · have hlast : utf8 (printAttribute a) = (' '.toUInt8 :: (utf8 a.1 ++ '='.toUInt8 ::
        '"'.toUInt8 :: utf8 (escapeAttribute a.2))) ++ ['"'.toUInt8] := by
      rw [utf8_printAttribute]
      simp
    rw [List.flatMap_append, List.flatMap_singleton, hlast, ← List.append_assoc, ← List.append_assoc,
      List.getLast?_concat]
    decide

/-- **An opening tag is read as one**, whatever follows it. -/
theorem Markup.read_openTag {name : String} {attributes : Attributes} (hn : IsTagName name)
    (ha : AreAttributes attributes) (bs : Bytes) :
    Markup.read (openContent name attributes ++ '>'.toUInt8 :: bs) =
      .ok (.start (openContent name attributes), bs) := by
  have hcut : cutTag none (openContent name attributes ++ '>'.toUInt8 :: bs) =
      some (openContent name attributes, bs) := by
    rw [isBalanced_openContent hn ha, cutTag, if_pos (by decide)]
    simp
  obtain ⟨b, rest, hb, h₁, h₂, h₃⟩ := openContent_start attributes hn bs
  have hstop := openContent_stop attributes hn
  rw [hb] at hcut ⊢
  unfold Markup.read
  dsimp only
  rw [if_neg (by simpa using h₂), if_neg (by simpa using h₃), readTag, hcut]
  rcases hc : openContent name attributes with _ | ⟨c, cs⟩
  · rfl
  · have hcb : c = b := by
      rw [hc, List.cons_append] at hb
      exact (List.cons.inj hb).1
    rw [hc] at hstop
    simp only [hcb, beq_iff_eq, h₁, if_false] at hstop ⊢
    rw [if_neg hstop]

theorem trimName_eq_self {bs : Bytes} (h : ∀ b ∈ bs, isBlankByte b = false) :
    trimName bs = bs := by
  unfold trimName
  split
  · rfl
  · rcases List.eq_nil_or_concat' bs with rfl | ⟨cs, c, rfl⟩
    · rfl
    · rw [List.reverse_concat, List.dropWhile_cons_of_neg (by simp [h c (by simp)]),
        List.reverse_cons, List.reverse_reverse]

/-- **A closing tag is read as one**, whatever follows it. -/
theorem Markup.read_closeTag {name : String} (hn : IsTagName name) (bs : Bytes) :
    Markup.read ('/'.toUInt8 :: (utf8 name ++ '>'.toUInt8 :: bs)) =
      .ok (.close (utf8 name), bs) := by
  have hcut : cutTag none ('/'.toUInt8 :: (utf8 name ++ '>'.toUInt8 :: bs)) =
      some ('/'.toUInt8 :: utf8 name, bs) := by
    have hslash : IsBalanced ['/'.toUInt8] :=
      IsBalanced.of_plain (List.forall_mem_singleton.2 (by decide))
    have hb : IsBalanced ('/'.toUInt8 :: utf8 name) := hslash.append hn.isBalanced
    rw [← List.cons_append, hb, cutTag, if_pos (by decide)]
    simp
  unfold Markup.read
  dsimp only
  rw [if_neg (by decide), if_neg (by decide), readTag, hcut]
  simp [trimName_eq_self hn.noBlank]

/-! ## Attributes -/

theorem attributesFrom_blank {size : Nat} {b : UInt8} (hb : isBlankByte b = true) (bs : Bytes) :
    attributesFrom size (b :: bs) = attributesFrom size bs := by
  rw [attributesFrom, if_pos hb]

theorem attributesFrom_attribute {size : Nat} {b : UInt8} {bs : Bytes} {a : RawAttribute}
    {pair : String × String} (hb : isBlankByte b = false) (hr : rawAttribute size b bs = .ok a)
    (hd : a.decode = .ok pair) :
    attributesFrom size (b :: bs) = (attributesFrom size a.rest).map (pair :: ·) := by
  rw [attributesFrom, if_neg (by simp [hb])]
  split
  · next h =>
    rw [hr] at h
    cases h
  · next h =>
    rw [hr] at h
    cases h
    rw [hd]

theorem rawValue_quoted (size : Nat) (key : Bytes) {value : Bytes} (h : '"'.toUInt8 ∉ value)
    (rest : Bytes) :
    rawValue size key ('"'.toUInt8 :: (value ++ '"'.toUInt8 :: rest)) = .ok ⟨key, value, rest⟩ := by
  have hv : ∀ b ∈ value, (fun b => b != '"'.toUInt8) b = true := by
    intro b hb
    rw [bne_iff_ne]
    rintro rfl
    exact h hb
  have hdrop : (value ++ '"'.toUInt8 :: rest).dropWhile (fun b => b != '"'.toUInt8) =
      '"'.toUInt8 :: rest := by
    rw [List.dropWhile_append_of_pos hv]
    rfl
  have htake : (value ++ '"'.toUInt8 :: rest).takeWhile (fun b => b != '"'.toUInt8) = value := by
    rw [List.takeWhile_append_of_pos hv]
    exact List.append_nil value
  rw [rawValue, List.dropWhile_cons_of_neg (by decide)]
  dsimp only
  rw [if_pos (by decide), hdrop, htake]

theorem rawAttribute_written (size : Nat) (k : UInt8) {ks value : Bytes}
    (hk : ∀ b ∈ ks, isKeyByte b = true) (h : '"'.toUInt8 ∉ value) (rest : Bytes) :
    rawAttribute size k (ks ++ '='.toUInt8 :: '"'.toUInt8 :: (value ++ '"'.toUInt8 :: rest)) =
      .ok ⟨k :: ks, value, rest⟩ := by
  have he : ¬ isKeyByte '='.toUInt8 = true := by decide
  rw [rawAttribute, List.dropWhile_append_of_pos hk, List.dropWhile_cons_of_neg he,
    List.dropWhile_cons_of_neg (by decide)]
  dsimp only
  rw [if_pos (by decide), List.takeWhile_append_of_pos hk, List.takeWhile_cons_of_neg he,
    List.append_nil, rawValue_quoted size _ h]

theorem isBlankByte_of_isKeyByte {b : UInt8} (h : isKeyByte b = true) : isBlankByte b = false := by
  unfold isKeyByte at h
  simp only [Bool.not_eq_true', Bool.or_eq_false_iff] at h
  exact h.2

/-- **Written attributes are read back**, for all values. -/
theorem attributesFrom_written (size : Nat) {attributes : Attributes}
    (ha : AreAttributes attributes) :
    attributesFrom size (attributes.flatMap fun a => utf8 (printAttribute a)) = .ok attributes := by
  induction attributes with
  | nil => rw [List.flatMap_nil, attributesFrom]
  | cons a as ih =>
    obtain ⟨hne, hkey⟩ := ha a List.mem_cons_self
    obtain ⟨k, ks, hks⟩ := List.exists_cons_of_ne_nil hne
    rw [hks] at hkey
    have hk : isKeyByte k = true := (hkey k List.mem_cons_self).1
    have hraw := rawAttribute_written size k (fun b hb => (hkey b (List.mem_cons_of_mem _ hb)).1)
      (quote_notMem_escapeAttribute a.2) (as.flatMap fun a => utf8 (printAttribute a))
    have hdecode : RawAttribute.decode ⟨k :: ks, utf8 (escapeAttribute a.2),
        as.flatMap fun a => utf8 (printAttribute a)⟩ = .ok a := by
      rw [RawAttribute.decode, decodeText_escapeAttribute, ← hks, lossyText_utf8]
      rfl
    rw [List.flatMap_cons, utf8_printAttribute, hks, List.cons_append,
      attributesFrom_blank (by decide)]
    simp only [List.append_assoc, List.cons_append, List.nil_append]
    rw [attributesFrom_attribute (isBlankByte_of_isKeyByte hk) hraw hdecode,
      ih fun b hb => ha b (List.mem_cons_of_mem _ hb)]
    rfl

theorem span_openContent {name : String} (attributes : Attributes) (hn : IsTagName name) :
    (openContent name attributes).takeWhile (fun b => !isBlankByte b) = utf8 name ∧
      (openContent name attributes).dropWhile (fun b => !isBlankByte b) =
        attributes.flatMap fun a => utf8 (printAttribute a) := by
  have hname : ∀ b ∈ utf8 name, (!isBlankByte b) = true := fun b hb => by simp [hn.noBlank b hb]
  unfold openContent
  rw [List.takeWhile_append_of_pos hname, List.dropWhile_append_of_pos hname]
  rcases attributes with _ | ⟨a, as⟩
  · simp
  · rw [List.flatMap_cons, utf8_printAttribute, List.cons_append,
      List.takeWhile_cons_of_neg (by decide), List.dropWhile_cons_of_neg (by decide)]
    simp

theorem tagName_openContent {name : String} (attributes : Attributes) (hn : IsTagName name) :
    tagName (openContent name attributes) = utf8 name :=
  (span_openContent attributes hn).1

/-- **The attributes of an opening tag** are the ones that were written. -/
theorem tagAttributes_openContent {name : String} {attributes : Attributes} (hn : IsTagName name)
    (ha : AreAttributes attributes) :
    tagAttributes (openContent name attributes) = .ok attributes := by
  rw [tagAttributes, (span_openContent attributes hn).2, attributesFrom_written _ ha]

theorem elementName_openContent {name : String} (attributes : Attributes) (hn : IsTagName name) :
    elementName (openContent name attributes) = localName name := by
  rw [elementName, tagName_openContent attributes hn]
  rfl

/-! ## Names without a prefix -/

theorem localName_eq_self {name : String} (h : ':' ∉ name.toList) : localName name = name := by
  have hall : name.toList.dropWhile (· != ':') = [] := by
    rw [List.dropWhile_eq_nil_iff]
    intro c hc
    rw [bne_iff_ne]
    rintro rfl
    exact h hc
  rw [localName, localPart, utf8, Utf8.dropWhile_encode (by decide), hall]
  exact lossyText_utf8 name

theorem localName_length_lt {name : String} (h : ':' ∈ name.toList) :
    (localName name).length < name.length := by
  obtain ⟨before, after, hname, hb⟩ := List.eq_append_cons_of_mem h
  have hdrop : name.toList.dropWhile (· != ':') = ':' :: after := by
    have hall : ∀ c ∈ before, (fun c => c != ':') c = true := by
      intro c hc
      rw [bne_iff_ne]
      rintro rfl
      exact hb hc
    rw [hname, List.dropWhile_append_of_pos hall, List.dropWhile_cons_of_neg (by decide)]
  have hlocal : localName name = String.ofList after := by
    rw [localName, localPart, utf8, Utf8.dropWhile_encode (by decide), hdrop, Utf8.encode_cons,
      Utf8.encodeChar_ascii (by decide)]
    exact congrArg String.ofList (Utf8.decodeLossy_encode after)
  rw [hlocal, String.length_ofList, ← String.length_toList, hname, List.length_append,
    List.length_cons]
  omega

end MissionText.Xml
