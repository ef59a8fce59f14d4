/-
  What a document does to the catalog that it is brought into.

  A document speaks of a place if it has a segment there, of which the last one
  counts, and of two languages there: that of source texts and its target
  language.  In all others it `IsSilentIn`.

  * `writesTo_writes`: what a document writes to an address is what its segments say
    there (`textsAt`).
  * `foldl_overwrite`: of texts under one tag the last one counts, and the tag that
    they find keeps its spelling unless one of them deletes it.
  * `IsMerged` is what is found after a document is brought into a catalog: the last
    segment of every place, and all else as it was.
  * `mergeInto_isMerged_and_commutes`: this is what `mergeInto` does; bringing a
    document in again changes nothing, and of documents that speak of different
    languages either may be the first.
-/
import MissionText.Proofs.Catalog.Lookup
import MissionText.Proofs.Xliff.Exchange
import MissionText.Xliff.Exchange

namespace MissionText

/-- The same translations at all addresses. -/
def Project.SameTranslations (p q : Project) : Prop :=
  ∀ a, p.translation? a = q.translation? a

/-! ## Texts under one tag -/

section Tag

variable {tag : String} {ts us : List Translation}

/-- **Texts under one tag**, one after the other: the last one counts. -/
theorem foldl_overwrite (h : ∀ t ∈ ts, t.language = tag) (old : Option Translation) :
    ts.foldl overwrite old =
      match ts.getLast? with
      | none => old
      | some t =>
        if t.text.isEmpty then none
        else if ts.any (·.text.isEmpty) then some ⟨tag, t.text⟩
        else some ⟨(old.map Translation.language).getD tag, t.text⟩ := by
  -- From the end, as the last text decides.
  induction ts using List.reverseRecOn with
  | nil => rfl
  | append_singleton ts t ih =>
    have htag : t.language = tag := h t (by simp)
    have hts : ∀ u ∈ ts, u.language = tag := fun u hu => h u (List.mem_append_left _ hu)
    rw [List.foldl_append, List.foldl_cons, List.foldl_nil, List.getLast?_concat, ih hts]
    dsimp only
    rw [overwrite, htag]
    by_cases hempty : t.text.isEmpty = true
    · rw [if_pos hempty, if_pos hempty]
    · have hany : (ts ++ [t]).any (·.text.isEmpty) = ts.any (·.text.isEmpty) := by
        simp [hempty]
      rw [if_neg hempty, if_neg hempty, hany]
      rcases hlast : ts.getLast? with _ | u
      · rw [List.getLast?_eq_none_iff.1 hlast]
        rfl
      · dsimp only
        -- The text before the last one either leaves nothing to find, or a tag.
        by_cases hu : u.text.isEmpty = true
        · have hdeleted : ts.any (·.text.isEmpty) = true :=
            List.any_eq_true.2 ⟨u, List.mem_of_getLast? hlast, hu⟩
          rw [if_pos hu, if_pos hdeleted]
          rfl
        · rw [if_neg hu]
          split_ifs
          · rfl
          · rfl

/-- Texts under one tag that end in the same text, and of which the one list deletes
    if the other does, do the same. -/
theorem foldl_overwrite_congr (hts : ∀ t ∈ ts, t.language = tag)
    (hus : ∀ u ∈ us, u.language = tag) (hlast : ts.getLast? = us.getLast?)
    (hany : ts.any (·.text.isEmpty) = us.any (·.text.isEmpty)) (old : Option Translation) :
    ts.foldl overwrite old = us.foldl overwrite old := by
  rw [foldl_overwrite hts, foldl_overwrite hus, hlast, hany]

theorem foldl_overwrite_twice (h : ∀ t ∈ ts, t.language = tag) (old : Option Translation) :
    ts.foldl overwrite (ts.foldl overwrite old) = ts.foldl overwrite old := by
  have htwice : ∀ t ∈ ts ++ ts, t.language = tag := by
    intro t ht
    exact h t ((List.mem_append.1 ht).elim id id)
  rw [← List.foldl_append]
  refine foldl_overwrite_congr htwice h ?_ ?_ old
  · rw [List.getLast?_append, Option.or_self]
  · rw [List.any_append, Bool.or_self]

/-- Lists of texts that end in the same text can be exchanged. -/
theorem foldl_overwrite_comm (hts : ∀ t ∈ ts, t.language = tag)
    (hus : ∀ u ∈ us, u.language = tag)
    (hlast : ∀ t u, ts.getLast? = some t → us.getLast? = some u → t = u)
    (old : Option Translation) :
    us.foldl overwrite (ts.foldl overwrite old) = ts.foldl overwrite (us.foldl overwrite old) := by
  have hboth : ∀ t ∈ ts ++ us, t.language = tag := by
    intro t ht
    exact (List.mem_append.1 ht).elim (hts t) (hus t)
  have hboth' : ∀ t ∈ us ++ ts, t.language = tag := by
    intro t ht
    exact (List.mem_append.1 ht).elim (hus t) (hts t)
  rw [← List.foldl_append, ← List.foldl_append]
  refine foldl_overwrite_congr hboth hboth' ?_ ?_ old
  · rw [List.getLast?_append, List.getLast?_append]
    rcases ht : ts.getLast? with _ | t
    · rw [Option.or_none, Option.none_or]
    · rcases hu : us.getLast? with _ | u
      · rw [Option.or_none, Option.none_or]
      · rw [Option.some_or, Option.some_or, hlast t u ht hu]
  · rw [List.any_append, List.any_append, Bool.or_comm]

end Tag

namespace Xliff.Document

/-! ## What a document says -/

/-- The segments at the place of an address, in document order. -/
def segmentsAt (d : Document) (a : Address) : List Segment :=
  d.groups.flatMap fun g => g.units.flatMap fun u =>
    u.segments.filter fun s => Address.sameKey ⟨g.id, u.id, s.id, a.language⟩ a

/-- The last segment at the place of an address. -/
def lastSegment? (d : Document) (a : Address) : Option Segment := (d.segmentsAt a).getLast?

/-- What a segment says, with the tags of the languages. -/
def segmentTexts (target : Option Language) (s : Segment) : List Translation :=
  ⟨originalTag, s.source⟩ :: (target.map fun l => ⟨l.tag, s.target.getD ""⟩).toList

/-- What a segment says in a language. -/
def textsIn (d : Document) (language : String) (s : Segment) : List Translation :=
  (segmentTexts d.target s).filter (sameFolded ·.language language)

/-- What a document says at an address. -/
def textsAt (d : Document) (a : Address) : List Translation :=
  (d.segmentsAt a).flatMap (d.textsIn a.language)

/-- A document says nothing in a language, neither as a source text nor as a target
    text. -/
def IsSilentIn (d : Document) (language : String) : Prop :=
  sameFolded originalTag language = false ∧
    ∀ l, d.target = some l → sameFolded l.tag language = false

variable {d : Document} {a : Address}

theorem textsAt_of_forall_textsIn {f : Segment → Translation}
    (h : ∀ s, d.textsIn a.language s = [f s]) : d.textsAt a = (d.segmentsAt a).map f := by
  rw [textsAt, funext h, List.map_eq_flatMap]

theorem textsAt_of_original (d : Document) (ho : sameFolded originalTag a.language = true) :
    d.textsAt a = (d.segmentsAt a).map fun s => ⟨originalTag, s.source⟩ := by
  refine textsAt_of_forall_textsIn fun s => ?_
  rw [textsIn, segmentTexts, List.filter_cons, if_pos ho]
  rcases d.target with _ | l
  · rfl
  · have hl : sameFolded l.tag a.language = false := by
      rw [← sameFolded_right ho, sameFolded_comm, l.sameFolded_originalTag]
    simp [hl]

theorem textsAt_of_target {l : Language} (htarget : d.target = some l)
    (hl : sameFolded l.tag a.language = true) :
    d.textsAt a = (d.segmentsAt a).map fun s => ⟨l.tag, s.target.getD ""⟩ := by
  have ho : sameFolded originalTag a.language = false := by
    rw [← sameFolded_right hl, l.sameFolded_originalTag]
  refine textsAt_of_forall_textsIn fun s => ?_
  rw [textsIn, segmentTexts, List.filter_cons, if_neg (Bool.eq_false_iff.1 ho), htarget]
  simp [hl]

theorem textsAt_of_isSilentIn (h : d.IsSilentIn a.language) : d.textsAt a = [] := by
  rw [textsAt, List.flatMap_eq_nil_iff]
  intro s _
  rw [textsIn, segmentTexts, List.filter_cons, if_neg (Bool.eq_false_iff.1 h.1)]
  rcases htarget : d.target with _ | l
  · rfl
  · simp [h.2 l htarget]

theorem textsAt_of_lastSegment?_eq_none (h : d.lastSegment? a = none) : d.textsAt a = [] := by
  rw [textsAt, List.getLast?_eq_none_iff.1 h]
  rfl

/-- The languages that a document speaks of. -/
theorem language_cases (d : Document) (language : String) :
    sameFolded originalTag language = true ∨
      (∃ l, d.target = some l ∧ sameFolded l.tag language = true) ∨ d.IsSilentIn language := by
  by_cases ho : sameFolded originalTag language = true
  · exact .inl ho
  · by_cases ht : ∃ l, d.target = some l ∧ sameFolded l.tag language = true
    · exact .inr (.inl ht)
    · refine .inr (.inr ⟨Bool.eq_false_iff.2 ho, fun l hl => ?_⟩)
      by_contra hsame
      exact ht ⟨l, hl, by simpa using hsame⟩

/-- The texts at an address are all under one tag. -/
theorem exists_tag_textsAt (d : Document) (a : Address) :
    ∃ tag, ∀ t ∈ d.textsAt a, t.language = tag := by
  rcases d.language_cases a.language with ho | ⟨l, htarget, hl⟩ | hsilent
  · refine ⟨originalTag, ?_⟩
    rw [textsAt_of_original d ho]
    simp
  · refine ⟨l.tag, ?_⟩
    rw [textsAt_of_target htarget hl]
    simp
  · refine ⟨originalTag, ?_⟩
    rw [textsAt_of_isSilentIn hsilent]
    simp

/-! ## What a document writes -/

theorem writesTo_segmentWrites (target : Option Language) (package container : String)
    (s : Segment) (a : Address) :
    writesTo a (segmentWrites target package container s) =
      if Address.sameKey ⟨package, container, s.id, a.language⟩ a then
        (segmentTexts target s).filter (sameFolded ·.language a.language)
      else [] := by
  have htexts : segmentWrites target package container s = (segmentTexts target s).map fun t =>
      (⟨package, container, s.id, t.language⟩, t.text) := by
    rcases target with _ | l
    · rfl
    · rfl
  rw [htexts, writesTo_translations]

/-- **What a document writes to an address** is what it says there. -/
theorem writesTo_writes (d : Document) (a : Address) : writesTo a d.writes = d.textsAt a := by
  have hunit (package container : String) (segments : List Segment) :
      writesTo a (segments.flatMap (segmentWrites d.target package container)) =
        (segments.filter fun s =>
          Address.sameKey ⟨package, container, s.id, a.language⟩ a).flatMap
            (d.textsIn a.language) := by
    induction segments with
    | nil => rfl
    | cons s segments ih =>
      rw [List.flatMap_cons, writesTo_append, ih, writesTo_segmentWrites, List.filter_cons]
      split_ifs
      · rw [List.flatMap_cons, textsIn]
      · rfl
  simp only [writes, textsAt, segmentsAt, writesTo_flatMap, List.flatMap_assoc, hunit]

/-! ## The catalog with a document -/

/-- A catalog after a document is brought into it. -/
structure IsMerged (d : Document) (p q : Project) : Prop where
  /-- The name is that of the document. -/
  name : q.name = d.projectName
  /-- The source text at a place is that of the last segment there. -/
  source : ∀ (a : Address) (s : Segment), sameFolded originalTag a.language = true →
    d.lastSegment? a = some s → q.textAt a = if s.source = "" then none else some s.source
  /-- The text in the target language is that of the last segment. -/
  target : ∀ (l : Language) (a : Address) (s : Segment), d.target = some l →
    sameFolded l.tag a.language = true → d.lastSegment? a = some s →
      q.textAt a = s.target.filter (· ≠ "")
  /-- All else is as it was. -/
  kept : ∀ a : Address, d.lastSegment? a = none ∨ d.IsSilentIn a.language →
    q.translation? a = p.translation? a

/-- Two documents have different target languages, and the same source texts in the
    last segments at the places of both. -/
structure Independent (d e : Document) : Prop where
  targets : ∀ l, d.target = some l → e.target ≠ some l
  sources : ∀ (a : Address) (s t : Segment), d.lastSegment? a = some s →
    e.lastSegment? a = some t → s.source = t.source

variable {e : Document} {p : Project}

/-- **The translations after a merge** are the old ones after what the document
    says. -/
theorem translation?_mergeInto (h : p.WellFormed) (d : Document) (a : Address) :
    (d.mergeInto p).translation? a = (d.textsAt a).foldl overwrite (p.translation? a) := by
  rw [mergeInto, Project.translation?_setAll (h.rename d.projectName), writesTo_writes]
  rfl

/-- **The last segment at a place counts**, in the languages that the document speaks
    of. -/
theorem textAt_mergeInto (h : p.WellFormed) {tag : String} {text : Segment → String}
    (htexts : d.textsAt a = (d.segmentsAt a).map fun s => ⟨tag, text s⟩) {s : Segment}
    (hs : d.lastSegment? a = some s) :
    (d.mergeInto p).textAt a = if text s = "" then none else some (text s) := by
  rw [lastSegment?] at hs
  rw [mergeInto, Project.textAt_setAll (h.rename d.projectName), writesTo_writes, htexts,
    List.getLast?_map, hs]
  simp only [Option.map_some, String.isEmpty_iff]

theorem isMerged_mergeInto (h : p.WellFormed) (d : Document) : d.IsMerged p (d.mergeInto p) where
  name := Project.name_setAll _ d.writes
  source := by
    intro a s ho hs
    exact textAt_mergeInto h (textsAt_of_original d ho) hs
  target := by
    intro l a s htarget hl hs
    rw [textAt_mergeInto h (textsAt_of_target htarget hl) hs]
    rcases s.target with _ | text
    · rfl
    · rw [filter_ne_empty]
      rfl
  kept := by
    intro a ha
    have hnone : d.textsAt a = [] := ha.elim textsAt_of_lastSegment?_eq_none textsAt_of_isSilentIn
    rw [translation?_mergeInto h, hnone]
    rfl

/-- **A document that is brought in again** changes nothing. -/
theorem sameTranslations_mergeInto_mergeInto (h : p.WellFormed) (d : Document) :
    (d.mergeInto (d.mergeInto p)).SameTranslations (d.mergeInto p) := by
  intro a
  obtain ⟨tag, htag⟩ := d.exists_tag_textsAt a
  rw [translation?_mergeInto (h.mergeInto d), translation?_mergeInto h]
  exact foldl_overwrite_twice htag _

/-- Of independent documents only one speaks in a language other than that of source
    texts. -/
theorem Independent.textsAt_eq_nil (h : d.Independent e)
    (ho : sameFolded originalTag a.language = false) : d.textsAt a = [] ∨ e.textsAt a = [] := by
  rcases d.language_cases a.language with ho' | ⟨l, htarget, hl⟩ | hsilent
  · rw [ho] at ho'
    cases ho'
  · refine .inr (textsAt_of_isSilentIn ⟨ho, fun m hm => ?_⟩)
    have hne : l ≠ m := fun heq => h.targets l htarget (heq ▸ hm)
    rw [← sameFolded_right hl, sameFolded_comm, Language.sameFolded_tag hne]
  · exact .inl (textsAt_of_isSilentIn hsilent)

/-- **Independent documents** can be brought in in either order. -/
theorem Independent.sameTranslations (h : p.WellFormed) (hind : d.Independent e) :
    (e.mergeInto (d.mergeInto p)).SameTranslations (d.mergeInto (e.mergeInto p)) := by
  intro a
  rw [translation?_mergeInto (h.mergeInto d), translation?_mergeInto h,
    translation?_mergeInto (h.mergeInto e), translation?_mergeInto h]
  by_cases ho : sameFolded originalTag a.language = true
  · have htag (c : Document) : ∀ t ∈ c.textsAt a, t.language = originalTag := by
      rw [textsAt_of_original c ho]
      simp
    refine foldl_overwrite_comm (htag d) (htag e) ?_ _
    intro t u ht hu
    rw [textsAt_of_original _ ho, List.getLast?_map, Option.map_eq_some_iff] at ht hu
    obtain ⟨s, hs, rfl⟩ := ht
    obtain ⟨s', hs', rfl⟩ := hu
    rw [hind.sources a s s' hs hs']
  · rcases hind.textsAt_eq_nil (Bool.eq_false_iff.2 ho) with hnil | hnil
    · rw [hnil]
      rfl
    · rw [hnil]
      rfl

/-- **What bringing in a document does.**  The catalog has the last segments of the
    document, under its name, and is otherwise as it was; bringing the document in
    again changes nothing; and independent documents can be brought in in either
    order. -/
theorem mergeInto_isMerged_and_commutes {p : Project} (h : p.Reachable) (d : Document) :
    d.IsMerged p (d.mergeInto p) ∧
      (d.mergeInto (d.mergeInto p)).SameTranslations (d.mergeInto p) ∧
        ∀ e : Document, d.Independent e →
          (e.mergeInto (d.mergeInto p)).SameTranslations (d.mergeInto (e.mergeInto p)) := by
  refine ⟨isMerged_mergeInto h.wellFormed d, ?_, ?_⟩
  · exact sameTranslations_mergeInto_mergeInto h.wellFormed d
  · intro e hind
    exact hind.sameTranslations h.wellFormed

/-- A document whose last segment for a key spells its id in another case than the
    first one, which deletes the source text. -/
def german : Document :=
  ⟨.v2_0, "Mission", "en", some .german,
    [⟨"Main", [⟨"dialog", [⟨"str_a", "", none⟩, ⟨"STR_A", "Hello", some "Hallo"⟩]⟩]⟩]⟩

/-- A document of the same key in another language. -/
def french : Document :=
  ⟨.v1_2, "Other_mission", "en", some .french,
    [⟨"main", [⟨"Dialog", [⟨"Str_a", "Hello", some "Bonjour"⟩]⟩]⟩]⟩

/-- A catalog with one text. -/
def oldCatalog : Project := (Project.new "Old").set ⟨"Main", "dialog", "str_a", "original"⟩ "Hi"

theorem mergeInto_isMerged_and_commutes_german :
    oldCatalog.Reachable ∧ german.Independent french ∧
      german.IsMerged oldCatalog (german.mergeInto oldCatalog) ∧
      (german.mergeInto (german.mergeInto oldCatalog)).SameTranslations
        (german.mergeInto oldCatalog) ∧
      (french.mergeInto (german.mergeInto oldCatalog)).SameTranslations
        (german.mergeInto (french.mergeInto oldCatalog)) := by
  have hreachable : oldCatalog.Reachable := (Project.Reachable.new _).set _ _
  have hindependent : german.Independent french := by
    refine ⟨by decide, ?_⟩
    intro a s t hs ht
    have hcase : Address.sameKey ⟨"Main", "dialog", "str_a", a.language⟩ a =
        Address.sameKey ⟨"Main", "dialog", "STR_A", a.language⟩ a := by
      have hid : sameFolded "str_a" "STR_A" = true := by decide
      simp only [Address.sameKey, sameFolded_left hid]
    have hsource : s.source = "Hello" := by
      by_cases hplace : Address.sameKey ⟨"Main", "dialog", "STR_A", a.language⟩ a = true
      · simp [lastSegment?, segmentsAt, german, hcase, hplace] at hs
        rw [← hs]
      · simp [lastSegment?, segmentsAt, german, hcase, hplace] at hs
    have hsource' : t.source = "Hello" := by
      by_cases hplace : Address.sameKey ⟨"main", "Dialog", "Str_a", a.language⟩ a = true
      · simp [lastSegment?, segmentsAt, french, hplace] at ht
        rw [← ht]
      · simp [lastSegment?, segmentsAt, french, hplace] at ht
    rw [hsource, hsource']
  obtain ⟨hmerged, hagain, hcommutes⟩ := mergeInto_isMerged_and_commutes hreachable german
  exact ⟨hreachable, hindependent, hmerged, hagain, hcommutes french hindependent⟩

/-- The two orders agree on the texts, and not on the spelling of the key. -/
example :
    french.mergeInto (german.mergeInto oldCatalog) =
      ⟨"Other mission", [⟨"Main", [⟨"dialog", [⟨"STR_A",
        [⟨"Original", "Hello"⟩, ⟨"German", "Hallo"⟩, ⟨"French", "Bonjour"⟩]⟩]⟩]⟩]⟩ ∧
    german.mergeInto (french.mergeInto oldCatalog) =
      ⟨"Mission", [⟨"Main", [⟨"dialog", [⟨"str_a",
        [⟨"French", "Bonjour"⟩, ⟨"Original", "Hello"⟩, ⟨"German", "Hallo"⟩]⟩]⟩]⟩]⟩ := by
  decide +kernel

end Xliff.Document

end MissionText
