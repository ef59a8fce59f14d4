/-
  Which events are a document.

  * `significant`: the events that matter to the tree, without markup that has no
    meaning and without text outside of elements.
  * `IsFaulty`: what keeps events from listing exactly one element, with the fault
    that is reported for it.
  * `Inside`, `exists_roots`: whatever the events are, they list some elements
    outside of others and then end, close an element that is not open, or leave
    one open.  So one of the cases always holds.
  * `ofEvents_of_lists`, `ofEvents_of_isFaulty`: what the builder makes of each case.
  * `ofEvents_eq_iff`: the builder takes exactly the events of one element.
-/
import MissionText.Error
import MissionText.Proofs.Xml.Listing
import MissionText.Proofs.Xml.Name

namespace MissionText.Xml

/-! ## Events that matter -/

namespace Event

/-- How many elements are open after an event. -/
def depthAfter (depth : Nat) : Event → Nat
  | start _ => depth + 1
  | close => depth - 1
  | _ => depth

/-- The event matters where so many elements are open. -/
def matters (depth : Nat) : Event → Bool
  | ignored => false
  | text _ => depth != 0
  | cdata _ => depth != 0
  | _ => true

/-- The attributes of a tag, or a piece of text, can be read. -/
def IsDecodable : Event → Prop
  | start tag => ∃ attributes, tagAttributes tag = .ok attributes
  | empty tag => ∃ attributes, tagAttributes tag = .ok attributes
  | text raw => ∃ piece, decodeText raw = .ok piece
  | _ => True

end Event

/-- The events that matter where so many elements are open. -/
def significant : Nat → List Event → List Event
  | _, [] => []
  | depth, e :: es =>
    if e.matters depth then e :: significant (e.depthAfter depth) es else significant depth es

namespace Builder

theorem length_opened_attach {b b' : Builder} {e : Element} (h : b.attach e = .ok b') :
    b'.opened.length = b.opened.length := by
  obtain ⟨_ | ⟨p, outer⟩, _ | root⟩ := b
  · cases h
    rfl
  · cases h
  · cases h
    rfl
  · cases h
    rfl

theorem length_opened_step {b b' : Builder} {e : Event} (h : b.step e = .ok b') :
    b'.opened.length = e.depthAfter b.opened.length := by
  cases e with
  | start tag =>
    rcases htag : tagAttributes tag with fault | attributes
    · rw [step, element, htag] at h
      cases h
    · rw [step_start htag] at h
      cases h
      rfl
  | empty tag =>
    rcases htag : tagAttributes tag with fault | attributes
    · rw [step, element, htag] at h
      cases h
    · rw [step_empty htag] at h
      exact length_opened_attach h
  | close =>
    obtain ⟨_ | ⟨p, outer⟩, root⟩ := b
    · cases h
    · exact length_opened_attach h
  | text raw =>
    obtain ⟨_ | ⟨p, outer⟩, root⟩ := b
    · cases h
      rfl
    · rcases hraw : decodeText raw with fault | piece
      · rw [step, hraw] at h
        cases h
      · rw [step, hraw] at h
        cases h
        rfl
  | cdata content =>
    obtain ⟨_ | ⟨p, outer⟩, root⟩ := b
    · cases h
      rfl
    · cases h
      rfl
  | ignored =>
    cases h
    rfl

theorem step_of_not_matters {b : Builder} {e : Event} (h : e.matters b.opened.length = false) :
    b.step e = .ok b := by
  cases e with
  | start | empty | close => cases h
  | text raw =>
    obtain ⟨_ | ⟨p, outer⟩, root⟩ := b
    · rfl
    · cases h
  | cdata content =>
    obtain ⟨_ | ⟨p, outer⟩, root⟩ := b
    · rfl
    · cases h
  | ignored => rfl

/-- The builder makes the same of the events that matter. -/
theorem run_significant (b : Builder) (es : List Event) :
    b.run (significant b.opened.length es) = b.run es := by
  induction es generalizing b with
  | nil => rfl
  | cons e es ih =>
    rcases hmatters : e.matters b.opened.length with _ | _
    · rw [significant, hmatters, if_neg Bool.false_ne_true, ih,
        run_cons_of_step (step_of_not_matters hmatters)]
    · rw [significant, hmatters, if_pos rfl, run, run]
      rcases hstep : b.step e with fault | b'
      · rfl
      · have hrun := ih b'
        rw [length_opened_step hstep] at hrun
        exact hrun

end Builder

theorem ofEvents_significant (es : List Event) : ofEvents (significant 0 es) = ofEvents es := by
  rw [ofEvents, ofEvents, ← Builder.run_significant .initial es]
  rfl

/-! ## Faults -/

/-- The events open elements and do not close them, the innermost with the
    given name. -/
inductive LeavesOpen : List Event → String → Prop
  | innermost {tag : Bytes} {attributes : Attributes} {children : Content} {es : List Event} :
      tagAttributes tag = .ok attributes → Lists children es →
      LeavesOpen (.start tag :: es) (elementName tag)
  | outer {tag : Bytes} {attributes : Attributes} {children : Content} {es es' : List Event}
      {name : String} :
      tagAttributes tag = .ok attributes → Lists children es → LeavesOpen es' name →
      LeavesOpen (.start tag :: (es ++ es')) name

/-- The events that matter do not list exactly one element. -/
inductive IsFaulty : List Event → DocumentFault → Prop
  | noRoot : IsFaulty [] .noRoot
  /-- There are two elements outside of others, whatever follows them. -/
  | manyRoots {root root' : Element} {es es' rest : List Event} :
      Lists (.ofElement root) es → Lists (.ofElement root') es' →
      IsFaulty (es ++ (es' ++ rest)) .manyRoots
  /-- Behind one element or none, an element is closed although none is open. -/
  | unexpectedClose {roots : List Element} {es rest : List Event} :
      roots.length ≤ 1 → Lists (.ofElements roots) es →
      IsFaulty (es ++ .close :: rest) .unexpectedClose
  /-- Behind one element or none, an element is not closed. -/
  | unclosedElement {roots : List Element} {es es' : List Event} {name : String} :
      roots.length ≤ 1 → Lists (.ofElements roots) es → LeavesOpen es' name →
      IsFaulty (es ++ es') (.unclosedElement name)

theorem IsFaulty.isMalformed {es : List Event} {fault : DocumentFault} (h : IsFaulty es fault) :
    ∃ cause, Error.ofDocumentFault fault = .malformed cause := by
  cases h with
  | noRoot | manyRoots | unexpectedClose | unclosedElement => exact ⟨_, rfl⟩

/-- Elements that are left open are open at the end. -/
theorem LeavesOpen.run {es : List Event} {name : String} (h : LeavesOpen es name) (b : Builder) :
    ∃ e outer root, e.name = name ∧ b.run es = .ok ⟨e :: outer, root⟩ := by
  induction h generalizing b with
  | @innermost tag attributes children es htag hchildren =>
    have hrun := hchildren.run ⟨elementName tag, attributes, .nil⟩ b.opened b.root []
    rw [List.append_nil] at hrun
    rw [Builder.run_cons_of_step (Builder.step_start htag b), hrun]
    exact ⟨_, _, _, rfl, rfl⟩
  | @outer tag attributes children es es' name htag hchildren _ ih =>
    rw [Builder.run_cons_of_step (Builder.step_start htag b), hchildren.run]
    exact ih _

theorem ofEvents_of_lists {root : Element} {es : List Event} (h : Lists (.ofElement root) es) :
    ofEvents es = .ok root := by
  have hrun := h.run_element none []
  rw [List.append_nil] at hrun
  rw [ofEvents, Builder.initial, hrun]
  rfl

theorem ofEvents_of_isFaulty {es : List Event} {fault : DocumentFault} (h : IsFaulty es fault) :
    ofEvents es = .error fault := by
  cases h with
  | noRoot => rfl
  | @manyRoots root root' es es' rest hroot hroot' =>
    rw [ofEvents, Builder.initial, hroot.run_element none]
    have hrun : Builder.run ⟨[], some root⟩ (es' ++ rest) = .error .manyRoots := by
      rw [hroot'.run_element (some root)]
      rfl
    change (Builder.run ⟨[], some root⟩ (es' ++ rest) >>= Builder.finish) = _
    rw [hrun]
    rfl
  | @unexpectedClose roots es rest hroots hlists =>
    rw [ofEvents, hlists.run_roots hroots]
    rfl
  | @unclosedElement roots es es' name hroots hlists hopen =>
    obtain ⟨e, outer, root, rfl, hrun⟩ := hopen.run ⟨[], roots.head?⟩
    rw [ofEvents, hlists.run_roots hroots, hrun]
    cases root <;> rfl

/-! ## Every sequence of events -/

/-- What events come to inside of an element, with `depth` elements open around it:
    they list some content and then end, close the element, or leave one open. -/
inductive Inside (depth : Nat) (es : List Event) : Prop
  | ends {c : Content} : Lists c (significant (depth + 1) es) → Inside depth es
  | closes {c : Content} {es₁ es' : List Event} : Lists c es₁ → (.close :: es') <:+ es →
      significant (depth + 1) es = es₁ ++ .close :: significant depth es' → Inside depth es
  | leavesOpen {c : Content} {es₁ es₂ : List Event} {name : String} : Lists c es₁ →
      LeavesOpen es₂ name → significant (depth + 1) es = es₁ ++ es₂ → Inside depth es

/-- Events that list a part of some content go in front of what follows. -/
theorem Inside.prepend {depth : Nat} (part : List Event) {es es' : List Event}
    (h : Inside depth es')
    (hpart : ∀ {c es}, Lists c es → ∃ c', Lists c' (part ++ es)) (hes : es' <:+ es)
    (hsignificant : significant (depth + 1) es = part ++ significant (depth + 1) es') :
    Inside depth es := by
  cases h with
  | @ends c hlists =>
    obtain ⟨c', hlists'⟩ := hpart hlists
    exact .ends (hsignificant ▸ hlists')
  | @closes c es₁ rest hlists hrest heq =>
    obtain ⟨c', hlists'⟩ := hpart hlists
    exact .closes hlists' (hrest.trans hes) (by rw [hsignificant, heq, List.append_assoc])
  | @leavesOpen c es₁ es₂ name hlists hopen heq =>
    obtain ⟨c', hlists'⟩ := hpart hlists
    exact .leavesOpen hlists' hopen (by rw [hsignificant, heq, List.append_assoc])

theorem inside {es : List Event} (h : ∀ e ∈ es, e.IsDecodable) (depth : Nat) :
    Inside depth es := by
  -- The events behind a closing tag are not those behind its opening tag, so the
  -- induction is on the number of events.
  induction hlength : es.length using Nat.strongRecOn generalizing es depth with
  | ind n ih =>
    subst hlength
    rcases es with _ | ⟨e, es⟩
    · exact .ends .nil
    · have htail : ∀ e ∈ es, e.IsDecodable := fun e he => h e (List.mem_cons_of_mem _ he)
      have hes := ih es.length (Nat.lt_succ_self _) htail
      have hsuffix : es <:+ e :: es := List.suffix_cons e es
      cases e with
      | ignored => exact (hes depth rfl).prepend [] (fun hl => ⟨_, hl⟩) hsuffix rfl
      | text raw =>
        obtain ⟨piece, hpiece⟩ := h _ List.mem_cons_self
        exact (hes depth rfl).prepend [.text raw] (fun hl => ⟨_, .text hpiece hl⟩)
          hsuffix rfl
      | cdata content =>
        exact (hes depth rfl).prepend [.cdata content] (fun hl => ⟨_, .cdata hl⟩)
          hsuffix rfl
      | empty tag =>
        obtain ⟨attributes, htag⟩ := h _ List.mem_cons_self
        exact (hes depth rfl).prepend [.empty tag] (fun hl => ⟨_, .empty htag hl⟩)
          hsuffix rfl
      | close => exact .closes .nil List.suffix_rfl rfl
      | start tag =>
        obtain ⟨attributes, htag⟩ := h _ List.mem_cons_self
        cases hes (depth + 1) rfl with
        | @ends children hchildren =>
          exact .leavesOpen .nil (.innermost htag hchildren) rfl
        | @closes children es₁ es' hchildren hes' heq =>
          have hsuffix' : es' <:+ es := (List.suffix_cons _ _).trans hes'
          have hlt : es'.length < (Event.start tag :: es).length := by
            have := hes'.length_le
            simp only [List.length_cons] at this ⊢
            omega
          have hrest := ih es'.length hlt (fun e he => htail e (hsuffix'.mem he)) depth rfl
          refine hrest.prepend (.start tag :: (es₁ ++ [.close])) ?_
            (hsuffix'.trans hsuffix) ?_
          · intro c rest hlists
            have hwhole := Lists.element htag hchildren hlists
            exact ⟨_, by simpa using hwhole⟩
          · change Event.start tag :: significant (depth + 1 + 1) es = _
            simp [heq]
        | @leavesOpen children es₁ es₂ name hchildren hopen heq =>
          refine .leavesOpen .nil (.outer htag hchildren hopen) ?_
          change Event.start tag :: significant (depth + 1 + 1) es = _
          rw [heq, List.nil_append]

/-- What events come to outside of elements: they list some elements and then end,
    close one that is not open, or leave one open. -/
theorem exists_roots {es : List Event} (h : ∀ e ∈ es, e.IsDecodable) :
    ∃ (roots : List Element) (es₁ es₂ : List Event), Lists (.ofElements roots) es₁ ∧
      significant 0 es = es₁ ++ es₂ ∧
      (es₂ = [] ∨ (∃ rest, es₂ = .close :: rest) ∨ ∃ name, LeavesOpen es₂ name) := by
  induction hlength : es.length using Nat.strongRecOn generalizing es with
  | ind n ih =>
    subst hlength
    rcases es with _ | ⟨e, es⟩
    · exact ⟨[], [], [], .nil, rfl, .inl rfl⟩
    · have htail : ∀ e ∈ es, e.IsDecodable := fun e he => h e (List.mem_cons_of_mem _ he)
      have hes := ih es.length (Nat.lt_succ_self _) htail rfl
      cases e with
      | ignored | text | cdata => exact hes
      | empty tag =>
        obtain ⟨attributes, htag⟩ := h _ List.mem_cons_self
        obtain ⟨roots, es₁, es₂, hlists, heq, hend⟩ := hes
        refine ⟨⟨elementName tag, attributes, .nil⟩ :: roots, .empty tag :: es₁, es₂,
          .empty htag hlists, ?_, hend⟩
        change Event.empty tag :: significant 0 es = _
        rw [heq, List.cons_append]
      | close => exact ⟨[], [], _, .nil, rfl, .inr (.inl ⟨_, rfl⟩)⟩
      | start tag =>
        obtain ⟨attributes, htag⟩ := h _ List.mem_cons_self
        have hstart : significant 0 (.start tag :: es) = .start tag :: significant 1 es := rfl
        cases inside htail 0 with
        | @ends children hchildren =>
          exact ⟨[], [], _, .nil, rfl, .inr (.inr ⟨_, .innermost htag hchildren⟩)⟩
        | @closes children es₁ es' hchildren hes' heq =>
          have hsuffix' : es' <:+ es := (List.suffix_cons _ _).trans hes'
          have hlt : es'.length < (Event.start tag :: es).length := by
            have := hes'.length_le
            simp only [List.length_cons] at this ⊢
            omega
          obtain ⟨roots, es₂, es₃, hlists, heq', hend⟩ :=
            ih es'.length hlt (fun e he => htail e (hsuffix'.mem he)) rfl
          refine ⟨⟨elementName tag, attributes, children⟩ :: roots, _, es₃,
            .element htag hchildren hlists, ?_, hend⟩
          rw [hstart, heq, heq']
          simp
        | @leavesOpen children es₁ es₂ name hchildren hopen heq =>
          have hopen' : LeavesOpen (.start tag :: (es₁ ++ es₂)) name :=
            .outer htag hchildren hopen
          exact ⟨[], [], _, .nil, by rw [hstart, heq, List.nil_append], .inr (.inr ⟨name, hopen'⟩)⟩

/-- **Events list one element, or there is a fault.** -/
theorem lists_or_isFaulty {es : List Event} (h : ∀ e ∈ es, e.IsDecodable) :
    (∃ root, Lists (.ofElement root) (significant 0 es)) ∨
      ∃ fault, IsFaulty (significant 0 es) fault := by
  obtain ⟨roots, es₁, es₂, hlists, heq, hend⟩ := exists_roots h
  rw [heq]
  by_cases hroots : roots.length ≤ 1
  · rcases hend with rfl | ⟨rest, rfl⟩ | ⟨name, hopen⟩
    · rw [List.append_nil]
      rcases roots with _ | ⟨root, _ | ⟨root', more⟩⟩
      · cases hlists
        exact .inr ⟨_, .noRoot⟩
      · exact .inl ⟨root, hlists⟩
      · simp at hroots
    · exact .inr ⟨_, .unexpectedClose hroots hlists⟩
    · exact .inr ⟨_, .unclosedElement hroots hlists hopen⟩
  · rcases roots with _ | ⟨root, _ | ⟨root', more⟩⟩
    · simp at hroots
    · simp at hroots
    · obtain ⟨es₃, es₄, hroot, hothers, rfl⟩ := hlists.exists_of_ofElements_cons
      obtain ⟨es₅, es₆, hroot', -, rfl⟩ := hothers.exists_of_ofElements_cons
      have hfaulty : IsFaulty (es₃ ++ (es₅ ++ (es₆ ++ es₂))) .manyRoots := .manyRoots hroot hroot'
      exact .inr ⟨_, by simpa using hfaulty⟩

/-- **The builder takes exactly the events of one element**, and makes that element
    of them.  All other events are malformed, for the fault that they have. -/
theorem ofEvents_eq_iff {es : List Event} (h : ∀ e ∈ es, e.IsDecodable) :
    (∀ root, ofEvents es = .ok root ↔ Lists (.ofElement root) (significant 0 es)) ∧
      (∀ fault, ofEvents es = .error fault ↔ IsFaulty (significant 0 es) fault) ∧
      (∀ fault, IsFaulty (significant 0 es) fault →
        ∃ cause, Error.ofDocumentFault fault = .malformed cause) ∧
      ∀ bs, readEvents [] (dropMark bs) = (es, none) → parseDocument bs = ofEvents es := by
  rw [← ofEvents_significant]
  have hcases := lists_or_isFaulty h
  refine ⟨fun root => ⟨fun hok => ?_, ofEvents_of_lists⟩,
    fun fault => ⟨fun herror => ?_, ofEvents_of_isFaulty⟩, fun fault hfaulty => ?_,
    fun bs hread => ?_⟩
  · rcases hcases with ⟨root', hlists⟩ | ⟨fault, hfaulty⟩
    · rw [ofEvents_of_lists hlists] at hok
      cases hok
      exact hlists
    · rw [ofEvents_of_isFaulty hfaulty] at hok
      cases hok
  · rcases hcases with ⟨root, hlists⟩ | ⟨fault', hfaulty⟩
    · rw [ofEvents_of_lists hlists] at herror
      cases herror
    · rw [ofEvents_of_isFaulty hfaulty] at herror
      cases herror
      exact hfaulty
  · exact hfaulty.isMalformed
  · rw [parseDocument, hread, ofEvents_significant]

/-- A comment, an element `a` with a child and text, and a blank behind it. -/
def greetingEvents : List Event :=
  [.ignored, .start (utf8 "x:a id=\"1\""), .text (utf8 "Hi &amp; "), .empty (utf8 "b"),
    .cdata (utf8 "bye"), .close, .text (utf8 "\n")]

theorem ofEvents_greetingEvents :
    (∀ e ∈ greetingEvents, e.IsDecodable) ∧
      ofEvents greetingEvents = .ok ⟨"a", [("id", "1")],
        .text "Hi & " (.element "b" [] .nil (.text "bye" .nil))⟩ := by
  have htag : tagAttributes (utf8 "x:a id=\"1\"") = .ok [("id", "1")] := by
    have hcontent : utf8 "x:a id=\"1\"" = openContent "x:a" [("id", "1")] := rfl
    rw [hcontent]
    refine tagAttributes_openContent (by decide) fun a ha => ?_
    have hid : IsPlainName "id" := by decide
    rw [List.mem_singleton.1 ha]
    exact hid.isAttributeKey
  have hempty : tagAttributes (utf8 "b") = .ok [] := by
    have hcontent : utf8 "b" = openContent "b" [] := rfl
    rw [hcontent]
    exact tagAttributes_openContent (by decide) fun a ha => absurd ha List.not_mem_nil
  have htext : decodeText (utf8 "Hi &amp; ") = .ok "Hi & " := rfl
  have hblank : decodeText (utf8 "\n") = .ok "\n" := rfl
  have hname : elementName (utf8 "x:a id=\"1\"") = "a" := rfl
  have hname' : elementName (utf8 "b") = "b" := rfl
  have hlossy : lossyText (utf8 "bye") = "bye" := rfl
  have hdecodable : ∀ e ∈ greetingEvents, e.IsDecodable := by
    simp only [greetingEvents, List.forall_mem_cons, Event.IsDecodable, htag, hempty, htext, hblank]
    simp
  have hinner : Lists (.text "Hi & " (.element "b" [] .nil (.text "bye" .nil)))
      [.text (utf8 "Hi &amp; "), .empty (utf8 "b"), .cdata (utf8 "bye")] := by
    have hcdata : Lists (.text (lossyText (utf8 "bye")) .nil) [.cdata (utf8 "bye")] := .cdata .nil
    have hlists := Lists.text htext (.empty hempty hcdata)
    rwa [hname', hlossy] at hlists
  have hlists := Lists.element htag hinner .nil
  rw [hname] at hlists
  exact ⟨hdecodable, ((ofEvents_eq_iff hdecodable).1 _).2 hlists⟩

end MissionText.Xml
