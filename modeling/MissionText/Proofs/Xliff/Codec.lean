/-
  Written interchange documents are read back.

  * `Document.filled` is what a reader takes a document for: a blank project id
    or source language counts as missing.
  * `read_render`: a written document is read as this, for either version, all ids
    and all texts.  Without a target language or without groups it is rejected
    (`Document.outcome`).
-/
import MissionText.Proofs.Xml.Layout
import MissionText.Proofs.Xml.Name
import MissionText.Xliff.Codec

namespace MissionText.Xliff

open Xml

/-! ## Segments, units, groups -/

theorem isPlainName_source : IsPlainName "source" := by decide

theorem isPlainName_target : IsPlainName "target" := by decide

theorem segmentOf_segmentElement (name : String) (s : Segment) :
    segmentOf (segmentElement name s).reread = s := by
  have htext (name text : String) :
      (⟨name, [], .ofText text⟩ : Element).reread.allText = text := by
    rw [Element.allText_reread, Element.allText, Content.allText_ofText]
  have hsource : ((segmentElement name s).reread.child? "source").map Element.allText =
      some s.source := by
    rw [Element.child?_reread, segmentElement, Content.elements_ofElements]
    simp [isPlainName_source.localName_eq, htext]
  have htarget : ((segmentElement name s).reread.child? "target").map Element.allText =
      s.target := by
    rw [Element.child?_reread, segmentElement, Content.elements_ofElements]
    rcases s.target with _ | text
    · simp [isPlainName_source.localName_eq]
    · simp [isPlainName_source.localName_eq, isPlainName_target.localName_eq, htext]
  have hid : (segmentElement name s).reread.value "id" = s.id := rfl
  rw [segmentOf, hid, hsource, htarget]
  rfl

theorem unitOf_unitElement {segmentName : String} (h : IsPlainName segmentName)
    (name : String) (u : Unit) : unitOf segmentName (unitElement name segmentName u).reread = u := by
  have hname (s : Segment) : (segmentElement segmentName s).name = segmentName := rfl
  have hcontent : (unitElement name segmentName u).content =
      .ofElements (u.segments.map (segmentElement segmentName)) := rfl
  have hsegments := Element.map_named_reread hname h.localName_eq
    (segmentOf_segmentElement segmentName) hcontent
  have hid : (unitElement name segmentName u).reread.value "id" = u.id := rfl
  rw [unitOf, hid, hsegments]

theorem groupOf_groupElement {unitName segmentName : String} (hu : IsPlainName unitName)
    (hs : IsPlainName segmentName) (g : Group) :
    groupOf unitName segmentName (groupElement unitName segmentName g).reread = g := by
  have hname (u : Unit) : (unitElement unitName segmentName u).name = unitName := rfl
  have hcontent : (groupElement unitName segmentName g).content =
      .ofElements (g.units.map (unitElement unitName segmentName)) := rfl
  have hunits := Element.map_named_reread hname hu.localName_eq
    (unitOf_unitElement hs unitName) hcontent
  have hid : (groupElement unitName segmentName g).reread.value "id" = g.id := rfl
  rw [groupOf, hid, hunits]

/-! ## Documents -/

/-- The document with what is missing in it, so far as a reader makes up for it. -/
def Document.filled (d : Document) : Document :=
  { d with
    projectId := if isBlank d.projectId then defaultProjectId else d.projectId
    sourceLanguage := if isBlank d.sourceLanguage then defaultSourceLanguage else d.sourceLanguage }

theorem getD_filter_isBlank (value default : String) :
    ((some value).filter fun v => !isBlank v).getD default =
      if isBlank value then default else value := by
  rcases h : isBlank value with _ | _
  · simp [Option.filter, h]
  · simp [Option.filter, h]

theorem filter_isBlank_code (target : Option Language) :
    ((target.map Language.code).filter fun v => !isBlank v) = target.map Language.code := by
  rcases target with _ | l
  · rfl
  · cases l <;> decide

theorem targetLanguage_code (l : Language) : targetLanguage (some l.code) = .ok l := by
  cases l <;> decide

theorem child_eq_ok {e c : Element} {name : String} (h : e.child? name = some c) :
    child e name = .ok c := by
  rw [child, h]

theorem map_groupOf_reread {unitName segmentName : String} (hu : IsPlainName unitName)
    (hs : IsPlainName segmentName) {e : Element} {gs : List Group}
    (he : e.content = .ofElements (gs.map (groupElement unitName segmentName))) :
    (e.reread.named "group").map (groupOf unitName segmentName) = gs := by
  have hgroup : IsPlainName "group" := by decide
  have hname (g : Group) : (groupElement unitName segmentName g).name = "group" := rfl
  exact Element.map_named_reread hname hgroup.localName_eq (groupOf_groupElement hu hs) he

theorem child_reread_ofElement {e c : Element} {name : String} (hname : c.name = name)
    (hplain : IsPlainName name) (h : e.content = .ofElement c) :
    child e.reread name = .ok c.reread := by
  have hc : Content.ofElement c = .ofElements [c] := rfl
  refine child_eq_ok ?_
  rw [Element.child?_reread, h, hc, Content.elements_ofElements]
  simp [hname, hplain.localName_eq]

/-- What a written document is read as. -/
def Document.outcome (d : Document) : Except Error Document :=
  match d.target with
  | none => .error (.missingField .targetLanguage)
  | some _ => withGroups d.filled

variable {d : Document}

/-- A missing target language has no attribute in version 1.2. -/
theorem filled?_fileElement1 (d : Document) :
    filled? (fileElement1 d).reread "target-language" = d.target.map Language.code := by
  rw [← filter_isBlank_code, filled?, fileElement1]
  rcases d.target with _ | l
  · rfl
  · rfl

/-- A missing target language has a blank attribute in version 2.0. -/
theorem filled?_element2 (d : Document) :
    filled? (element2 d).reread "trgLang" = d.target.map Language.code := by
  rw [← filter_isBlank_code, filled?, element2]
  rcases d.target with _ | l
  · rfl
  · rfl

theorem document1_element1 (hversion : d.version = .v1_2) :
    document1 (element1 d).reread = d.outcome := by
  have hfile : child (element1 d).reread "file" = .ok (fileElement1 d).reread :=
    child_reread_ofElement rfl (by decide) rfl
  have hbody : child (fileElement1 d).reread "body" = .ok (bodyElement d).reread :=
    child_reread_ofElement rfl (by decide) rfl
  have hgroups : ((bodyElement d).reread.named "group").map (groupOf "group" "trans-unit") =
      d.groups := map_groupOf_reread (by decide) (by decide) rfl
  have hid : filled? (fileElement1 d).reread "original" =
      (some d.projectId).filter fun v => !isBlank v := rfl
  have hlanguage : filled? (fileElement1 d).reread "source-language" =
      (some d.sourceLanguage).filter fun v => !isBlank v := rfl
  rw [document1, hfile]
  simp only [bind, Except.bind]
  rw [filled?_fileElement1, Document.outcome]
  rcases htarget : d.target with _ | l
  · rfl
  · rw [Option.map_some, targetLanguage_code, hbody, hid, hlanguage, getD_filter_isBlank,
      getD_filter_isBlank, Document.filled, htarget, hversion]
    dsimp only
    rw [hgroups]

theorem document2_element2 (hversion : d.version = .v2_0) :
    document2 (element2 d).reread = d.outcome := by
  have hfile : child (element2 d).reread "file" = .ok (fileElement2 d).reread :=
    child_reread_ofElement rfl (by decide) rfl
  have hgroups : ((fileElement2 d).reread.named "group").map (groupOf "unit" "segment") =
      d.groups := map_groupOf_reread (by decide) (by decide) rfl
  have hid : filled? (fileElement2 d).reread "id" =
      (some d.projectId).filter fun v => !isBlank v := rfl
  have hlanguage : filled? (element2 d).reread "srcLang" =
      (some d.sourceLanguage).filter fun v => !isBlank v := rfl
  rw [document2, filled?_element2, Document.outcome]
  rcases htarget : d.target with _ | l
  · rfl
  · rw [Option.map_some, targetLanguage_code, Document.filled, htarget, hversion]
    simp only [bind, Except.bind]
    rw [hfile]
    dsimp only
    rw [hid, hlanguage, getD_filter_isBlank, getD_filter_isBlank, hgroups]

/-- The version that a written document states decides how it is read. -/
theorem Document.ofElement_reread_toElement (d : Document) :
    Document.ofElement d.toElement.reread =
      match d.version with
      | .v1_2 => document1 (element1 d).reread
      | .v2_0 => document2 (element2 d).reread := by
  have hroot : IsPlainName "xliff" := by decide
  unfold Document.ofElement Document.toElement
  rcases d.version with _ | _
  · have hname : (element1 d).reread.name = "xliff" := hroot.localName_eq
    have hfilled : filled? (element1 d).reread "version" = some "1.2" := rfl
    have hattribute : Version.ofAttribute "1.2" = .ok .v1_2 := by decide
    simp only [hname, hfilled, hattribute, bind, Except.bind, ne_eq, not_true_eq_false, if_false]
  · have hname : (element2 d).reread.name = "xliff" := hroot.localName_eq
    have hfilled : filled? (element2 d).reread "version" = some "2.0" := rfl
    have hattribute : Version.ofAttribute "2.0" = .ok .v2_0 := by decide
    simp only [hname, hfilled, hattribute, bind, Except.bind, ne_eq, not_true_eq_false, if_false]

theorem Document.ofElement_toElement (d : Document) :
    Document.ofElement d.toElement.reread = d.outcome := by
  rw [ofElement_reread_toElement]
  rcases hversion : d.version with _ | _
  · exact document1_element1 hversion
  · exact document2_element2 hversion

/-! ## Printing -/

/-- Only the keys of attributes matter. -/
theorem areAttributes_of_keys {attributes : List (String × String)} (keys : List String)
    (hkeys : attributes.map Prod.fst = keys) (h : ∀ key ∈ keys, IsPlainName key) :
    AreAttributes attributes := by
  subst hkeys
  intro a ha
  exact (h a.1 (List.mem_map_of_mem ha)).isAttributeKey

theorem isPrintable_single {name : String} {attributes : List (String × String)} {e : Element}
    (hn : IsPlainName name) (ha : AreAttributes attributes) (he : e.IsPrintable) :
    (⟨name, attributes, .ofElement e⟩ : Element).IsPrintable :=
  ⟨hn.isTagName, ha, he.1, he.2.1, he.2.2, trivial⟩

theorem isPrintable_segmentElement {name : String} (hn : IsPlainName name) (s : Segment) :
    (segmentElement name s).IsPrintable := by
  have hid : IsPlainName "id" := by decide
  refine Element.isPrintable_mk hn.isTagName (areAttributes_singleton hid.isAttributeKey s.id) ?_
  intro e he
  rcases List.mem_cons.1 he with rfl | he
  · exact ⟨isPlainName_source.isTagName, List.forall_mem_nil _, trivial⟩
  · obtain ⟨text, -, rfl⟩ := Option.map_eq_some_iff.1 (Option.mem_toList.1 he)
    exact ⟨isPlainName_target.isTagName, List.forall_mem_nil _, trivial⟩

theorem isPrintable_groupElement {unitName segmentName : String} (hu : IsPlainName unitName)
    (hs : IsPlainName segmentName) (g : Group) :
    (groupElement unitName segmentName g).IsPrintable := by
  have hid : IsPlainName "id" := by decide
  have hgroup : IsPlainName "group" := by decide
  refine Element.isPrintable_mk hgroup.isTagName
    (areAttributes_singleton hid.isAttributeKey g.id) ?_
  intro e he
  obtain ⟨u, -, rfl⟩ := List.mem_map.1 he
  refine Element.isPrintable_mk hu.isTagName (areAttributes_singleton hid.isAttributeKey u.id) ?_
  intro e he
  obtain ⟨s, -, rfl⟩ := List.mem_map.1 he
  exact isPrintable_segmentElement hs s

theorem Document.isPrintable_toElement (d : Document) : d.toElement.IsPrintable := by
  have hxliff : IsPlainName "xliff" := by decide
  have hfile : IsPlainName "file" := by decide
  have hgroups {unitName segmentName : String} (hu : IsPlainName unitName)
      (hs : IsPlainName segmentName) :
      ∀ e ∈ d.groups.map (groupElement unitName segmentName), e.IsPrintable := by
    intro e he
    obtain ⟨g, -, rfl⟩ := List.mem_map.1 he
    exact isPrintable_groupElement hu hs g
  unfold Document.toElement
  rcases d.version with _ | _
  · have hbody : IsPlainName "body" := by decide
    have hgroup : IsPlainName "group" := by decide
    have hunit : IsPlainName "trans-unit" := by decide
    refine isPrintable_single hxliff (areAttributes_of_keys ["xmlns", "version"] rfl (by decide)) ?_
    refine isPrintable_single hfile ?_ ?_
    · rcases d.target with _ | l
      · exact areAttributes_of_keys ["original", "source-language", "datatype"] rfl (by decide)
      · exact areAttributes_of_keys
          ["original", "source-language", "target-language", "datatype"] rfl (by decide)
    · exact Element.isPrintable_mk hbody.isTagName (List.forall_mem_nil _) (hgroups hgroup hunit)
  · have hunit : IsPlainName "unit" := by decide
    have hsegment : IsPlainName "segment" := by decide
    refine isPrintable_single hxliff
      (areAttributes_of_keys ["xmlns", "version", "srcLang", "trgLang"] rfl (by decide)) ?_
    exact Element.isPrintable_mk hfile.isTagName (areAttributes_of_keys ["id"] rfl (by decide))
      (hgroups hunit hsegment)

/-! ## Reading -/

theorem Document.readUtf8_render (d : Document) :
    Document.readUtf8 (utf8 d.render) = d.outcome := by
  rw [Document.readUtf8, Document.render, parseDocument_printDocument d.isPrintable_toElement]
  simp only [Except.mapError, bind, Except.bind]
  exact d.ofElement_toElement

/-- **A written document is read back**, if it has a target language and groups. -/
theorem Document.read_render (d : Document) : Document.read (utf8 d.render) = d.outcome := by
  rw [Document.read, Document.render, toUtf8_printDocument]
  exact d.readUtf8_render

theorem Document.outcome_of_target {l : Language} (htarget : d.target = some l) :
    d.outcome = withGroups d.filled := by
  rw [outcome, htarget]

end MissionText.Xliff
