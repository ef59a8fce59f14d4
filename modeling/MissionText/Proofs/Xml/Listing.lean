/-
  The events of an element tree.

  * `Lists`: events list a content in preorder, an element by its opening tag, its
    content and its closing tag, or by one event if it has none.
  * `Lists.run`: such events build the content inside the innermost open element.
  * `Lists.run_element`, `Lists.run_roots`: outside of elements they build the root.
-/
import Mathlib.Tactic.Common
import MissionText.Xml.Document

namespace MissionText.Xml

namespace Content

theorem append_assoc (c d e : Content) : (c.append d).append e = c.append (d.append e) := by
  induction c with
  | nil => rfl
  | text piece rest ih => simp only [append, ih]
  | element name attributes children rest ihc ihr => simp only [append, ihr]

theorem append_nil (c : Content) : c.append nil = c := by
  induction c with
  | nil => rfl
  | text piece rest ih => simp only [append, ih]
  | element name attributes children rest ihc ihr => simp only [append, ihr]

end Content

/-! ## Listings -/

/-- Events list a content in preorder. -/
inductive Lists : Content → List Event → Prop
  | nil : Lists .nil []
  | text {raw : Bytes} {piece : String} {rest : Content} {es : List Event} :
      decodeText raw = .ok piece → Lists rest es → Lists (.text piece rest) (.text raw :: es)
  | cdata {content : Bytes} {rest : Content} {es : List Event} :
      Lists rest es → Lists (.text (lossyText content) rest) (.cdata content :: es)
  | empty {tag : Bytes} {attributes : Attributes} {rest : Content} {es : List Event} :
      tagAttributes tag = .ok attributes → Lists rest es →
      Lists (.element (elementName tag) attributes .nil rest) (.empty tag :: es)
  | element {tag : Bytes} {attributes : Attributes} {children rest : Content}
      {es es' : List Event} :
      tagAttributes tag = .ok attributes → Lists children es → Lists rest es' →
      Lists (.element (elementName tag) attributes children rest)
        (.start tag :: (es ++ .close :: es'))

theorem Builder.element_eq {tag : Bytes} {attributes : Attributes}
    (h : tagAttributes tag = .ok attributes) :
    Builder.element tag = .ok ⟨elementName tag, attributes, .nil⟩ := by
  rw [Builder.element, h]
  rfl

theorem Builder.run_cons_of_step {b b' : Builder} {e : Event} (h : b.step e = .ok b')
    (es : List Event) : b.run (e :: es) = b'.run es := by
  rw [Builder.run, h]
  rfl

theorem Builder.step_start {tag : Bytes} {attributes : Attributes}
    (h : tagAttributes tag = .ok attributes) (b : Builder) :
    b.step (.start tag) = .ok ⟨⟨elementName tag, attributes, .nil⟩ :: b.opened, b.root⟩ := by
  rw [Builder.step, element_eq h]
  rfl

theorem Builder.step_empty {tag : Bytes} {attributes : Attributes}
    (h : tagAttributes tag = .ok attributes) (b : Builder) :
    b.step (.empty tag) = b.attach ⟨elementName tag, attributes, .nil⟩ := by
  rw [Builder.step, element_eq h]
  rfl

namespace Lists

variable {c : Content} {es : List Event}

/-- **Events that list a content build it** inside the innermost open element. -/
theorem run (h : Lists c es) (e : Element) (outer : List Element) (root : Option Element)
    (es' : List Event) :
    Builder.run ⟨e :: outer, root⟩ (es ++ es') =
      Builder.run ⟨{ e with content := e.content.append c } :: outer, root⟩ es' := by
  induction h generalizing e outer es' with
  | nil =>
    rw [Content.append_nil]
    rfl
  | @text raw piece rest es hpiece _ ih =>
    have hstep : Builder.step ⟨e :: outer, root⟩ (.text raw) =
        .ok ⟨{ e with content := e.content.append (.ofText piece) } :: outer, root⟩ := by
      rw [Builder.step, hpiece]
      rfl
    rw [List.cons_append, Builder.run_cons_of_step hstep, ih, Content.append_assoc]
    rfl
  | @cdata content rest es _ ih =>
    have hstep : Builder.step ⟨e :: outer, root⟩ (.cdata content) =
        .ok ⟨{ e with content := e.content.append (.ofText (lossyText content)) } :: outer, root⟩ :=
      rfl
    rw [List.cons_append, Builder.run_cons_of_step hstep, ih, Content.append_assoc]
    rfl
  | @empty tag attributes rest es htag _ ih =>
    have hstep : Builder.step ⟨e :: outer, root⟩ (.empty tag) =
        .ok ⟨{ e with content := e.content.append (.ofElement
          ⟨elementName tag, attributes, .nil⟩) } :: outer, root⟩ :=
      Builder.step_empty htag _
    rw [List.cons_append, Builder.run_cons_of_step hstep, ih, Content.append_assoc]
    rfl
  | @element tag attributes children rest es es₁ htag _ _ ihc ihr =>
    have hclose : Builder.step
          ⟨⟨elementName tag, attributes, Content.append .nil children⟩ :: e :: outer, root⟩ .close =
        .ok ⟨{ e with content := e.content.append (.ofElement
          ⟨elementName tag, attributes, children⟩) } :: outer, root⟩ := rfl
    rw [List.cons_append, Builder.run_cons_of_step (Builder.step_start htag _),
      List.append_assoc, ihc, List.cons_append, Builder.run_cons_of_step hclose, ihr,
      Content.append_assoc]
    rfl

/-- **Events that list an element outside of others** complete it. -/
theorem run_element {e : Element} (h : Lists (.ofElement e) es) (root : Option Element)
    (es' : List Event) :
    Builder.run ⟨[], root⟩ (es ++ es') = (Builder.attach ⟨[], root⟩ e).bind (·.run es') := by
  obtain ⟨name, attributes, children⟩ := e
  cases h with
  | @empty tag _ _ es htag hrest =>
    cases hrest
    rw [List.cons_append, Builder.run, Builder.step_empty htag]
    rfl
  | @element tag _ _ _ es es₁ htag hchildren hrest =>
    cases hrest
    rw [List.cons_append, Builder.run_cons_of_step (Builder.step_start htag _),
      List.append_assoc, hchildren.run]
    rfl

/-- Events that list elements list the first one and then the others. -/
theorem exists_of_ofElements_cons {e : Element} {elements : List Element}
    (h : Lists (.ofElements (e :: elements)) es) :
    ∃ es₁ es₂, Lists (.ofElement e) es₁ ∧ Lists (.ofElements elements) es₂ ∧ es = es₁ ++ es₂ := by
  obtain ⟨name, attributes, children⟩ := e
  cases h with
  | @empty tag _ _ es htag hrest => exact ⟨[.empty tag], es, .empty htag .nil, hrest, rfl⟩
  | @element tag _ _ _ es es₁ htag hchildren hrest =>
    have hfirst : Lists (.element (elementName tag) attributes children .nil)
        (.start tag :: (es ++ [.close])) := .element htag hchildren .nil
    exact ⟨_, es₁, hfirst, hrest, by simp⟩

/-- Events that list one element outside of others, or none, make it the root. -/
theorem run_roots {roots : List Element} (h : Lists (.ofElements roots) es)
    (hroots : roots.length ≤ 1) (es' : List Event) :
    Builder.initial.run (es ++ es') = Builder.run ⟨[], roots.head?⟩ es' := by
  rcases roots with _ | ⟨root, _ | ⟨root', more⟩⟩
  · cases h
    rfl
  · exact run_element (e := root) h none es'
  · rw [List.length_cons, List.length_cons] at hroots
    omega

end Lists

end MissionText.Xml
