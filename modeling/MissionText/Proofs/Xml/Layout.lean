/-
  A laid out document is read back.

  Laying out puts text only where the reader of a tree does not look: between
  elements.  What is looked at is the child elements and, in an element that
  starts with text, the text.

  * `Element.shown` is an element as the reader sees it after it was laid out
    at a depth; `elements_shown`, `allText_shown` are what is found in it.
  * `elements_reread`, `allText_reread`: the same without layout.
  * `parseDocument_printIndented`, `parseDocument_printDocument`: the roots of
    the two kinds of written documents.
  * `toUtf8_printIndented`, `toUtf8_printDocument`: their encoding is not mistaken
    for another.
-/
import MissionText.Proofs.Xml.RoundTrip
import MissionText.Text.Encoding

namespace MissionText.Xml

/-! ## Child elements -/

namespace Content

theorem elements_append (c d : Content) : (c.append d).elements = c.elements ++ d.elements := by
  induction c with
  | nil => rfl
  | text piece rest ih => exact ih
  | element name attributes children rest _ ih =>
    rw [append, elements, ih]
    rfl

theorem elements_ofElements (es : List Element) : (ofElements es).elements = es := by
  induction es with
  | nil => rfl
  | cons e es ih => rw [ofElements, elements, ih]

theorem elements_prependText (piece : String) (c : Content) :
    (prependText piece c).elements = c.elements := by
  unfold prependText
  split_ifs
  · rfl
  · cases c <;> rfl

theorem elements_reread (c : Content) : c.reread.elements = c.elements.map Element.reread := by
  have hlocalized (c : Content) : c.localized.elements =
      c.elements.map fun e => ⟨localName e.name, e.attributes, e.content.localized⟩ := by
    induction c with
    | nil => rfl
    | text piece rest ih => exact ih
    | element name attributes children rest _ ih => rw [localized, elements, ih]; rfl
  have hmerged (c : Content) : c.merged.elements =
      c.elements.map fun e => ⟨e.name, e.attributes, e.content.merged⟩ := by
    induction c with
    | nil => rfl
    | text piece rest ih =>
      rw [merged, elements_prependText]
      exact ih
    | element name attributes children rest _ ih => rw [merged, elements, ih]; rfl
  rw [reread, hlocalized, hmerged, List.map_map]
  rfl

/-- The elements of a name below a content are its children of that name and
    what is below its children. -/
theorem descendants_eq_flatMap (name : String) (c : Content) :
    c.descendants name = c.elements.flatMap fun e =>
      (if e.name = name then [e] else []) ++ e.content.descendants name := by
  induction c with
  | nil => rfl
  | text piece rest ih => exact ih
  | element n attributes children rest _ ih =>
    rw [descendants, ih]
    rfl

/-! ## Text -/

theorem allText_prependText (piece : String) (c : Content) :
    (prependText piece c).allText = piece ++ c.allText := by
  unfold prependText
  split_ifs with h
  · rw [h, String.empty_append]
  · cases c with
    | text next rest => rw [allText, allText, String.append_assoc]
    | nil => rfl
    | element => rfl

theorem allText_reread (c : Content) : c.reread.allText = c.allText := by
  have hlocalized (c : Content) : c.localized.allText = c.allText := by
    induction c with
    | nil => rfl
    | text piece rest ih => rw [localized, allText, ih, allText]
    | element name attributes children rest ihc ihr => rw [localized, allText, ihc, ihr, allText]
  have hmerged (c : Content) : c.merged.allText = c.allText := by
    induction c with
    | nil => rfl
    | text piece rest ih => rw [merged, allText_prependText, ih, allText]
    | element name attributes children rest ihc ihr => rw [merged, allText, ihc, ihr, allText]
  rw [reread, hlocalized, hmerged]

theorem allText_ofText (piece : String) : (ofText piece).allText = piece := by
  rw [ofText, allText, allText, String.append_empty]

end Content

/-! ## Questions about an element -/

namespace Element

theorem name_reread (e : Element) : e.reread.name = localName e.name := rfl

theorem allText_reread (e : Element) : e.reread.allText = e.allText :=
  Content.allText_reread e.content

theorem hasName_comp_reread (name : String) :
    (fun e : Element => decide (e.name = name)) ∘ reread =
      fun e => decide (localName e.name = name) := by
  funext e
  rw [Function.comp_apply, Bool.eq_iff_iff, decide_eq_true_iff, decide_eq_true_iff, name_reread]

theorem child?_reread (e : Element) (name : String) :
    e.reread.child? name =
      (e.content.elements.find? fun c => localName c.name = name).map reread := by
  have hcontent : e.reread.content = e.content.reread := rfl
  rw [child?, hcontent, Content.elements_reread, List.find?_map, hasName_comp_reread]

theorem named_reread (e : Element) (name : String) :
    e.reread.named name =
      (e.content.elements.filter fun c => localName c.name = name).map reread := by
  have hcontent : e.reread.content = e.content.reread := rfl
  rw [named, hcontent, Content.elements_reread, List.filter_map, hasName_comp_reread]

/-- What is read from the children of one name is what they were made of. -/
theorem map_named_reread {α : Type} {make : α → Element} {read : Element → α} {name : String}
    (hname : ∀ a, (make a).name = name) (hlocal : localName name = name)
    (hread : ∀ a, read (make a).reread = a) {e : Element} {as : List α}
    (he : e.content = .ofElements (as.map make)) : (e.reread.named name).map read = as := by
  have hall : (as.map make).filter (fun c => localName c.name = name) = as.map make := by
    rw [List.filter_eq_self]
    intro c hc
    obtain ⟨a, -, rfl⟩ := List.mem_map.1 hc
    rw [hname, hlocal]
    exact decide_eq_true rfl
  rw [named_reread, he, Content.elements_ofElements, hall, List.map_map, List.map_map]
  exact (List.map_congr_left fun a _ => hread a).trans (List.map_id as)

end Element

/-! ## Layout -/

theorem Content.startsWithText_ofElements (es : List Element) :
    (ofElements es).startsWithText = false := by
  cases es with
  | nil => rfl
  | cons => rfl

namespace Element

/-- The element laid out at a depth. -/
def laid (depth : Nat) (e : Element) : Element :=
  ⟨e.name, e.attributes,
    if e.content.startsWithText then e.content
    else (e.content.indented (depth + 1)).append (.ofText (Content.newline depth))⟩

/-- The element as the reader sees it after it was laid out at a depth. -/
def shown (depth : Nat) (e : Element) : Element := (e.laid depth).reread

theorem elements_indented (depth : Nat) (c : Content) :
    (c.indented depth).elements = c.elements.map (laid depth) := by
  induction c with
  | nil => rfl
  | text piece rest ih => exact ih
  | element name attributes children rest _ ih =>
    rw [Content.indented, Content.elements, Content.elements, ih]
    rfl

/-- **The child elements of an element that was laid out.** -/
theorem elements_shown {e : Element} (h : e.content.startsWithText = false) (depth : Nat) :
    (e.shown depth).content.elements = e.content.elements.map (shown (depth + 1)) := by
  unfold shown reread laid
  dsimp only
  rw [h, if_neg Bool.false_ne_true, Content.elements_reread, Content.elements_append,
    elements_indented, Content.ofText, Content.elements, Content.elements, List.append_nil,
    List.map_map]
  rfl

theorem elements_shown_ofElements {e : Element} {es : List Element}
    (h : e.content = .ofElements es) (depth : Nat) :
    (e.shown depth).content.elements = es.map (shown (depth + 1)) := by
  have hstart : e.content.startsWithText = false := by
    rw [h]
    exact Content.startsWithText_ofElements es
  rw [elements_shown hstart, h, Content.elements_ofElements]

/-- What is found below an element whose child elements all have the name in
    question, if nothing is found further below. -/
theorem flatMap_descendants_shown {α : Type} {f : Element → List α} {e : Element}
    {es : List Element} {name : String} {depth : Nat} (h : e.content = .ofElements es)
    (hname : ∀ x ∈ es, localName x.name = name)
    (hbelow : ∀ x ∈ es, ((x.shown (depth + 1)).descendants name).flatMap f = []) :
    ((e.shown depth).descendants name).flatMap f = es.flatMap fun x => f (x.shown (depth + 1)) := by
  rw [descendants, Content.descendants_eq_flatMap, elements_shown_ofElements h, List.flatMap_map,
    List.flatMap_assoc]
  refine List.flatMap_congr fun x hx => ?_
  have hx' : (x.shown (depth + 1)).name = name := hname x hx
  have hnone := hbelow x hx
  rw [descendants] at hnone
  rw [if_pos hx', List.flatMap_append, hnone, List.append_nil, List.flatMap_singleton]

/-- **The text of an element that starts with text.** -/
theorem allText_shown {e : Element} (h : e.content.startsWithText = true) (depth : Nat) :
    (e.shown depth).allText = e.allText := by
  unfold shown reread laid allText
  dsimp only
  rw [h, if_pos rfl, Content.allText_reread]

theorem elements_shown_ofText (name text : String) (attributes : List (String × String))
    (depth : Nat) :
    ((⟨name, attributes, .ofText text⟩ : Element).shown depth).content.elements = [] := by
  unfold shown reread laid
  dsimp only
  rw [Content.ofText, Content.startsWithText, if_pos rfl, Content.elements_reread,
    Content.elements, Content.elements, List.map_nil]

theorem name_shown (e : Element) (depth : Nat) : (e.shown depth).name = localName e.name := rfl

end Element

/-! ## Printable elements -/

/-- An element that can be written. -/
def Element.IsPrintable (e : Element) : Prop :=
  IsTagName e.name ∧ AreAttributes e.attributes ∧ e.content.IsPrintable

namespace Content

theorem isPrintable_ofElements {es : List Element} (h : ∀ e ∈ es, e.IsPrintable) :
    (ofElements es).IsPrintable := by
  induction es with
  | nil => trivial
  | cons e es ih =>
    obtain ⟨hn, ha, hc⟩ := h e List.mem_cons_self
    exact ⟨hn, ha, hc, ih fun e he => h e (List.mem_cons_of_mem _ he)⟩

theorem isPrintable_append {c d : Content} (hc : c.IsPrintable) (hd : d.IsPrintable) :
    (c.append d).IsPrintable := by
  induction c with
  | nil => exact hd
  | text piece rest ih => exact ih hc
  | element name attributes children rest _ ih => exact ⟨hc.1, hc.2.1, hc.2.2.1, ih hc.2.2.2⟩

theorem isPrintable_indented {c : Content} (h : c.IsPrintable) (depth : Nat) :
    (c.indented depth).IsPrintable := by
  induction c generalizing depth with
  | nil => trivial
  | text piece rest ih => exact ih h depth
  | element name attributes children rest ihc ihr =>
    obtain ⟨hn, ha, hc, hr⟩ := h
    refine ⟨hn, ha, ?_, ihr hr depth⟩
    split
    · exact hc
    · exact isPrintable_append (ihc hc (depth + 1)) trivial

end Content

theorem Element.isPrintable_mk {name : String} {attributes : List (String × String)}
    {es : List Element} (hn : IsTagName name) (ha : AreAttributes attributes)
    (he : ∀ e ∈ es, e.IsPrintable) :
    (⟨name, attributes, .ofElements es⟩ : Element).IsPrintable :=
  ⟨hn, ha, Content.isPrintable_ofElements he⟩

theorem areAttributes_singleton {key : String} (h : IsAttributeKey key) (value : String) :
    AreAttributes [(key, value)] := by
  intro a ha
  rw [List.mem_singleton.1 ha]
  exact h

theorem Element.isPrintable_laid {e : Element} (h : e.IsPrintable) (depth : Nat) :
    (e.laid depth).IsPrintable := by
  obtain ⟨hn, ha, hc⟩ := h
  refine ⟨hn, ha, ?_⟩
  unfold laid
  dsimp only
  split
  · exact hc
  · exact Content.isPrintable_append (Content.isPrintable_indented hc (depth + 1)) trivial

/-! ## Documents -/

/-- **The root of a document with one line for each element.** -/
theorem parseDocument_printIndented {root : Element} (h : root.IsPrintable) :
    parseDocument (utf8 (printIndented root)) = .ok (root.shown 0) := by
  have hprint : printIndented root =
      declaration ++ ((root.laid 0).between (Content.newline 0) "\n").print := by
    simp only [printIndented, Content.ofElement, Content.indented, Element.between, Element.laid,
      Content.print, String.append_assoc, String.append_empty]
    rfl
  obtain ⟨hn, ha, hc⟩ := Element.isPrintable_laid h 0
  rw [hprint]
  exact parseDocument_print (by decide) (by decide) ⟨hn, ha, hc, trivial⟩

/-- **The root of a document on one line.** -/
theorem parseDocument_printDocument {root : Element} (h : root.IsPrintable) :
    parseDocument (utf8 (printDocument root)) = .ok root.reread := by
  have hprint : printDocument root = declaration ++ (root.between "\n" "\n").print := by
    simp only [printDocument, Content.ofElement, Element.between, Content.print,
      String.append_assoc, String.append_empty]
    rfl
  obtain ⟨hn, ha, hc⟩ := h
  rw [hprint]
  exact parseDocument_print (by decide) (by decide) ⟨hn, ha, hc, trivial⟩

/-! ## Encoding -/

/-- A document starts with its declaration, and so with no byte order mark. -/
theorem toUtf8_declaration_append (s : String) :
    Encoding.toUtf8 (utf8 (declaration ++ s)) = utf8 (declaration ++ s) := by
  have hstart : declaration = "<" ++ "?xml version=\"1.0\" encoding=\"utf-8\"?>" := by decide
  have hcons : utf8 (declaration ++ s) =
      '<'.toUInt8 :: utf8 ("?xml version=\"1.0\" encoding=\"utf-8\"?>" ++ s) := by
    rw [hstart, String.append_assoc, utf8_append]
    rfl
  rw [hcons]
  rfl

theorem toUtf8_printIndented (root : Element) :
    Encoding.toUtf8 (utf8 (printIndented root)) = utf8 (printIndented root) := by
  rw [printIndented, String.append_assoc]
  exact toUtf8_declaration_append _

theorem toUtf8_printDocument (root : Element) :
    Encoding.toUtf8 (utf8 (printDocument root)) = utf8 (printDocument root) := by
  rw [printDocument, String.append_assoc, String.append_assoc]
  exact toUtf8_declaration_append _

end MissionText.Xml
