/-
  A written document is read back.

  The reader does not see where one piece of text ends and the next one starts,
  and it takes the prefix off a name.  So it makes `Content.reread` of a content:
  neighbouring pieces of text merged, empty ones dropped, and local names.

  * `readEvents_print`: the events of a written content.
  * `lists_events`: these events list the content again.
  * `parseDocument_print`: the root of a written document, whatever text stands
    before and after it.
-/
import MissionText.Proofs.Xml.Listing
import MissionText.Proofs.Xml.Tag

namespace MissionText.Xml

/-! ## Contents as the reader sees them -/

namespace Content

/-- Names and attributes are ones that tags can carry. -/
def IsPrintable : Content → Prop
  | nil => True
  | text _ rest => rest.IsPrintable
  | element name attributes children rest =>
    IsTagName name ∧ AreAttributes attributes ∧ children.IsPrintable ∧ rest.IsPrintable

/-- No piece of text is empty or next to another one. -/
def IsMerged : Content → Prop
  | nil => True
  | text piece rest => piece ≠ "" ∧ rest.startsWithText = false ∧ rest.IsMerged
  | element _ _ children rest => children.IsMerged ∧ rest.IsMerged

/-- The content with text put before it. -/
def prependText (piece : String) (c : Content) : Content :=
  if piece = "" then c
  else match c with
    | text next rest => text (piece ++ next) rest
    | c => text piece c

/-- The content with neighbouring pieces of text merged and empty ones
    dropped. -/
def merged : Content → Content
  | nil => nil
  | text piece rest => prependText piece rest.merged
  | element name attributes children rest => element name attributes children.merged rest.merged

/-- The content with the prefixes of names taken off. -/
def localized : Content → Content
  | nil => nil
  | text piece rest => text piece rest.localized
  | element name attributes children rest =>
    element (localName name) attributes children.localized rest.localized

/-- What the reader makes of a content. -/
def reread (c : Content) : Content := c.merged.localized

/-- The events of a content. -/
def events : Content → List Event
  | nil => []
  | text piece rest => .text (utf8 (escapeText piece)) :: rest.events
  | element name attributes children rest =>
    .start (openContent name attributes) :: (children.events ++ .close :: rest.events)

/-! ## Merging -/

theorem print_prependText (piece : String) (c : Content) :
    (prependText piece c).print = escapeText piece ++ c.print := by
  unfold prependText
  split_ifs with h
  · rw [h, escapeText_empty, String.empty_append]
  · cases c with
    | text next rest => rw [print, print, escapeText_append, String.append_assoc]
    | nil => rfl
    | element => rfl

theorem print_merged (c : Content) : c.merged.print = c.print := by
  induction c with
  | nil => rfl
  | text piece rest ih => rw [merged, print_prependText, ih, print]
  | element name attributes children rest ihc ihr => rw [merged, print, print, ihc, ihr]

theorem isMerged_prependText (piece : String) {c : Content} (h : c.IsMerged) :
    (prependText piece c).IsMerged := by
  unfold prependText
  split_ifs with hp
  · exact h
  · cases c with
    | text next rest =>
      refine ⟨fun he => h.1 ?_, h.2⟩
      exact (String.append_eq_empty_iff.1 he).2
    | nil => exact ⟨hp, rfl, h⟩
    | element => exact ⟨hp, rfl, h⟩

theorem isMerged_merged (c : Content) : c.merged.IsMerged := by
  induction c with
  | nil => trivial
  | text piece rest ih => exact isMerged_prependText piece ih
  | element name attributes children rest ihc ihr => exact ⟨ihc, ihr⟩

theorem isPrintable_prependText (piece : String) {c : Content} (h : c.IsPrintable) :
    (prependText piece c).IsPrintable := by
  unfold prependText
  split_ifs
  · exact h
  · cases c with
    | text next rest => exact h
    | nil => trivial
    | element => exact h

theorem isPrintable_merged {c : Content} (h : c.IsPrintable) : c.merged.IsPrintable := by
  induction c with
  | nil => trivial
  | text piece rest ih => exact isPrintable_prependText piece (ih h)
  | element name attributes children rest ihc ihr =>
    exact ⟨h.1, h.2.1, ihc h.2.2.1, ihr h.2.2.2⟩

end Content

/-! ## Events -/

theorem readEvents_markup {opened opened' : List Bytes} {bs after : Bytes} {markup : Markup}
    {event : Event} (hm : Markup.read bs = .ok (markup, after))
    (he : Event.ofMarkup opened markup = .ok (event, opened')) :
    readEvents opened ('<'.toUInt8 :: bs) =
      (event :: (readEvents opened' after).1, (readEvents opened' after).2) := by
  rw [readEvents, if_pos (by decide)]
  split
  · next h =>
    rw [hm] at h
    cases h
  · next h =>
    rw [hm] at h
    cases h
    rw [he]

/-- The bytes start with markup, if there are any. -/
def StartsMarkup (bs : Bytes) : Prop := ∀ b, bs.head? = some b → b = '<'.toUInt8

theorem readEvents_text {raw bs : Bytes} (opened : List Bytes) (hne : raw ≠ [])
    (hraw : '<'.toUInt8 ∉ raw) (hbs : StartsMarkup bs) :
    readEvents opened (raw ++ bs) =
      (.text raw :: (readEvents opened bs).1, (readEvents opened bs).2) := by
  obtain ⟨b, rest, rfl⟩ := List.exists_cons_of_ne_nil hne
  have hb : b ≠ '<'.toUInt8 := fun h => hraw (h ▸ List.mem_cons_self)
  have hrest : ∀ a ∈ rest, (fun a => a != '<'.toUInt8) a = true := by
    intro a ha
    rw [bne_iff_ne]
    rintro rfl
    exact hraw (List.mem_cons_of_mem _ ha)
  have htake : (rest ++ bs).takeWhile (fun a => a != '<'.toUInt8) = rest := by
    rw [List.takeWhile_append_of_pos hrest]
    rcases bs with _ | ⟨c, cs⟩
    · exact List.append_nil rest
    · rw [hbs c rfl]
      exact List.append_nil rest
  have hdrop : (rest ++ bs).dropWhile (fun a => a != '<'.toUInt8) = bs := by
    rw [List.dropWhile_append_of_pos hrest]
    rcases bs with _ | ⟨c, cs⟩
    · rfl
    · rw [hbs c rfl]
      rfl
  rw [List.cons_append, readEvents, if_neg (by simpa using hb)]
  dsimp only
  rw [htake, hdrop]

open Content in
/-- **The events of a written content**, in front of whatever starts with
    markup. -/
theorem readEvents_print {c : Content} (hp : c.IsPrintable) (hm : c.IsMerged)
    (opened : List Bytes) {bs : Bytes} (hbs : StartsMarkup bs) :
    readEvents opened (utf8 c.print ++ bs) =
      (c.events ++ (readEvents opened bs).1, (readEvents opened bs).2) := by
  induction c generalizing opened bs with
  | nil => rfl
  | text piece rest ih =>
    have hstart : StartsMarkup (utf8 rest.print ++ bs) := by
      cases rest with
      | nil => exact hbs
      | text => cases hm.2.1
      | element name attributes children rest =>
        intro b hb
        rw [print, utf8_append, utf8_append, utf8_append, utf8_openTag] at hb
        exact (Option.some.inj hb).symm
    rw [print, utf8_append, List.append_assoc,
      readEvents_text opened (utf8_escapeText_ne_nil hm.1) (lt_notMem_escapeText piece) hstart,
      ih hp hm.2.2 opened hbs]
    rfl
  | element name attributes children rest ihc ihr =>
    obtain ⟨hn, ha, hpc, hpr⟩ := hp
    have hopen : Event.ofMarkup opened (.start (openContent name attributes)) =
        .ok (.start (openContent name attributes), utf8 name :: opened) := by
      rw [Event.ofMarkup, tagName_openContent attributes hn]
    have hclose : Event.ofMarkup (utf8 name :: opened) (.close (utf8 name)) =
        .ok (.close, opened) := by
      rw [Event.ofMarkup, if_pos rfl]
    have hstart : StartsMarkup (utf8 (closeTag name) ++ (utf8 rest.print ++ bs)) := by
      intro b hb
      rw [utf8_closeTag] at hb
      exact (Option.some.inj hb).symm
    have htail : readEvents (utf8 name :: opened)
          (utf8 (closeTag name) ++ (utf8 rest.print ++ bs)) =
        (.close :: (rest.events ++ (readEvents opened bs).1), (readEvents opened bs).2) := by
      rw [utf8_closeTag, List.cons_append, List.cons_append, List.append_assoc,
        List.singleton_append, readEvents_markup (Markup.read_closeTag hn _) hclose,
        ihr hpr hm.2 opened hbs]
    rw [print, utf8_append, utf8_append, utf8_append, List.append_assoc, List.append_assoc,
      List.append_assoc, utf8_openTag, List.cons_append, List.append_assoc, List.singleton_append,
      readEvents_markup (Markup.read_openTag hn ha _) hopen, ihc hpc hm.1 _ hstart, htail]
    simp only [events, List.cons_append, List.append_assoc]

/-! ## Building -/

open Content in
/-- **The events of a content list it**, with local names. -/
theorem lists_events {c : Content} (hp : c.IsPrintable) : Lists c.localized c.events := by
  induction c with
  | nil => exact .nil
  | text piece rest ih => exact .text (decodeText_escapeText piece) (ih hp)
  | element name attributes children rest ihc ihr =>
    obtain ⟨hn, ha, hpc, hpr⟩ := hp
    rw [localized, events, ← elementName_openContent attributes hn]
    exact .element (tagAttributes_openContent hn ha) (ihc hpc) (ihr hpr)

/-! ## Documents -/

/-- What follows the declaration of a document: the root between two pieces of
    text. -/
def Element.between (root : Element) (before after : String) : Content :=
  .text before (.element root.name root.attributes root.content (.text after .nil))

/-- The root as the reader sees it. -/
def Element.reread (e : Element) : Element :=
  ⟨localName e.name, e.attributes, e.content.reread⟩

theorem readEvents_declaration (bs : Bytes) :
    readEvents [] (utf8 declaration ++ bs) =
      (.ignored :: (readEvents [] bs).1, (readEvents [] bs).2) := by
  have hread : Markup.read (utf8 "?xml version=\"1.0\" encoding=\"utf-8\"?>" ++ bs) =
      .ok (.ignored, bs) := rfl
  exact readEvents_markup hread rfl

theorem dropMark_declaration (bs : Bytes) :
    dropMark (utf8 declaration ++ bs) = utf8 declaration ++ bs := rfl

theorem readEvents_between {root : Element} {before after : String} (hb : before ≠ "")
    (ha : after ≠ "") (hr : (Content.ofElement root).IsPrintable) :
    readEvents [] (utf8 (declaration ++ (root.between before after).print)) =
      (.ignored :: ({ root with content := root.content.merged }.between before after).events,
        none) := by
  have hmerged : (root.between before after).merged =
      { root with content := root.content.merged }.between before after := by
    simp only [Element.between, Content.merged, Content.prependText, if_neg hb, if_neg ha]
  have hprintable : (root.between before after).IsPrintable :=
    ⟨hr.1, hr.2.1, hr.2.2.1, trivial⟩
  have hend : StartsMarkup [] := fun _ h => by cases h
  have hread := readEvents_print (Content.isPrintable_merged hprintable)
    (Content.isMerged_merged _) [] hend
  have hnil : readEvents [] [] = ([], none) := by rw [readEvents]
  rw [Content.print_merged, List.append_nil, hnil, List.append_nil, hmerged] at hread
  rw [utf8_append, readEvents_declaration, hread]

/-- **A written document is read back**: its root with local names and merged
    text. -/
theorem parseDocument_print {root : Element} {before after : String} (hb : before ≠ "")
    (ha : after ≠ "") (hr : (Content.ofElement root).IsPrintable) :
    parseDocument (utf8 (declaration ++ (root.between before after).print)) = .ok root.reread := by
  obtain ⟨hn, hattr, hc, -⟩ := hr
  have hmerged : (Content.ofElement { root with content := root.content.merged }).IsPrintable :=
    ⟨hn, hattr, Content.isPrintable_merged hc, trivial⟩
  have hlists : Lists (.ofElement root.reread) _ := lists_events hmerged
  have hignored : Builder.step ⟨[], none⟩ .ignored = .ok ⟨[], none⟩ := rfl
  have htext : Builder.step ⟨[], none⟩ (.text (utf8 (escapeText before))) = .ok ⟨[], none⟩ := rfl
  have hevents : ofEvents
      (.ignored :: ({ root with content := root.content.merged }.between before after).events) =
        .ok root.reread := by
    have hrun : Builder.run ⟨[], none⟩ (_ ++ [.text (utf8 (escapeText after))]) =
        .ok ⟨[], some root.reread⟩ := hlists.run_element none _
    simp only [Content.ofElement, Content.events, List.cons_append, List.append_assoc,
      List.nil_append] at hrun
    rw [ofEvents, Builder.initial, Builder.run_cons_of_step hignored, Element.between,
      Content.events, Builder.run_cons_of_step htext, Content.events, Content.events,
      Content.events, hrun]
    rfl
  rw [parseDocument, utf8_append, dropMark_declaration, ← utf8_append,
    readEvents_between hb ha ⟨hn, hattr, hc, trivial⟩]
  exact hevents

end MissionText.Xml
