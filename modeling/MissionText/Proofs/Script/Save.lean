/-
  What saving one directive does to the catalog.

  A directive writes its source text, and after it the translations that the
  reference has for the same source text.  Two notions of the tag of source texts
  meet here: the translations that are not carried over are those whose tag differs
  from it in ASCII case only, and the translations of the output are found by their
  lower-cased tags.  They agree, so that the source text is never carried over.

  * `writesTo_writes`: what the texts of a key write to an address.
  * `writesTo_written_of_original`, `writesTo_written_of_other`: at its key, a
    directive writes its text in the language of source texts, and what it carries
    over in any other.
  * `filter_othersAt`: of the reference, that is the one translation at the address.
  * `Directive.IsSaved` is the state after a directive; `isSaved_save` says that
    `save` leads there.
-/
import MissionText.Proofs.Script.KeyHistory

namespace MissionText

/-! ## Writes of a key -/

/-- **What the texts of a key write to an address** are those in its language. -/
theorem KeyMatch.writesTo_writes (m : KeyMatch) (a : Address) :
    writesTo a m.writes =
      if m.place.sameKey a then m.key.translations.filter (sameFolded ·.language a.language)
      else [] :=
  writesTo_translations m.package m.container m.key.id m.key.translations a

variable {reference output : Project} {d : Directive} {a : Address}

/-- Among the other translations of a key there is one at the most in a language. -/
theorem Project.WellFormed.filter_othersAt (h : reference.WellFormed)
    (ho : sameFolded originalTag a.language = false) :
    (reference.othersAt a).filter (sameFolded ·.language a.language) =
      (reference.translation? a).toList := by
  have hothers : (reference.othersAt a).filter (sameFolded ·.language a.language) =
      (reference.translationsAt a).filter (sameFolded ·.language a.language) := by
    rw [othersAt, List.filter_filter]
    refine List.filter_congr fun t _ => ?_
    by_cases ht : sameFolded t.language a.language = true
    · rw [ht, t.isOriginal_eq, sameFolded_left ht, sameFolded_comm, ho]
      rfl
    · rw [Bool.eq_false_iff.2 ht, Bool.false_and]
  rw [hothers, translation?_eq_locate?]
  rcases hm : reference.locate? a with _ | m
  · rw [translationsAt_of_missing hm]
    rfl
  · rw [translationsAt_of_locate? hm]
    exact (h.key_of_locate? hm).1.distinct.filter_eq_find? a.language

/-! ## Writes of a directive -/

theorem Directive.writesTo_written_of_original (href : reference.WellFormed)
    (hkey : (d.address originalTag).sameKey a = true)
    (ho : sameFolded originalTag a.language = true) :
    writesTo a (d.written reference).writes = [⟨originalTag, d.text⟩] := by
  have hcarried : (d.carriedFrom reference).filter (sameFolded ·.language a.language) = [] := by
    rw [List.filter_eq_nil_iff]
    intro t ht hlanguage
    have hother := (d.mem_carriedFrom href ht).2.1
    rw [sameFolded_right ho, hlanguage] at hother
    cases hother
  have hplace : (d.written reference).place.sameKey a = true := hkey
  rw [KeyMatch.writesTo_writes, if_pos hplace, translations_written, List.filter_cons, if_pos ho,
    hcarried]

theorem Directive.writesTo_written_of_other (hkey : (d.address originalTag).sameKey a = true)
    (ho : sameFolded originalTag a.language = false) :
    writesTo a (d.written reference).writes =
      (d.carriedFrom reference).filter (sameFolded ·.language a.language) := by
  have hplace : (d.written reference).place.sameKey a = true := hkey
  rw [KeyMatch.writesTo_writes, if_pos hplace, translations_written, List.filter_cons,
    if_neg (Bool.eq_false_iff.1 ho)]

theorem Directive.writesTo_written_of_elsewhere
    (hkey : (d.address originalTag).sameKey a = false) :
    writesTo a (d.written reference).writes = [] := by
  have hplace : ¬ (d.written reference).place.sameKey a = true := Bool.eq_false_iff.1 hkey
  rw [KeyMatch.writesTo_writes, if_neg hplace]

/-! ## The state after a directive -/

/-- The reference has the source text of a directive, up to case. -/
def Directive.Unchanged (reference : Project) (d : Directive) : Prop :=
  ∃ saved, reference.sourceAt d.package d.container d.key = some saved ∧
    sameFolded saved d.text = true

/-- A translation where there may be one: a tag that is there keeps its spelling. -/
def Translation.inPlaceOf (old : Option Translation) (t : Translation) : Translation :=
  ⟨(old.map language).getD t.language, t.text⟩

theorem overwrite_of_ne_empty {t : Translation} (h : t.text ≠ "") (old : Option Translation) :
    overwrite old t = some (t.inPlaceOf old) :=
  if_neg (by simpa using h)

/-- A catalog before and after a directive is saved, and the number of translations
    that are carried over. -/
structure Directive.IsSaved (reference : Project) (d : Directive) (before after : Project)
    (count : Nat) : Prop where
  /-- The source text is that of the directive. -/
  source : ∀ a : Address, (d.address originalTag).sameKey a = true →
    sameFolded originalTag a.language = true →
      after.translation? a =
        some (Translation.inPlaceOf (before.translation? a) ⟨originalTag, d.text⟩)
  /-- An unchanged source text has the translations of the reference, and keeps those
      that the reference does not have. -/
  unchanged : d.Unchanged reference → ∀ a : Address, (d.address originalTag).sameKey a = true →
    sameFolded originalTag a.language = false →
      after.translation? a =
        ((reference.translation? a).map (Translation.inPlaceOf (before.translation? a))).or
          (before.translation? a)
  /-- All translations of the reference are carried over for an unchanged source text. -/
  count_unchanged : d.Unchanged reference → count =
    ((reference.translationsAt (d.address originalTag)).filter fun t =>
      !sameFolded t.language originalTag).length
  /-- A changed source text keeps the translations that it has. -/
  changed : ¬ d.Unchanged reference → ∀ a : Address, (d.address originalTag).sameKey a = true →
    sameFolded originalTag a.language = false → after.translation? a = before.translation? a
  /-- Nothing is carried over for a changed source text. -/
  count_changed : ¬ d.Unchanged reference → count = 0
  /-- All other keys are as they were. -/
  elsewhere : ∀ a : Address, (d.address originalTag).sameKey a = false →
    after.translation? a = before.translation? a

theorem Directive.Unchanged.carriedFrom_eq (h : d.Unchanged reference)
    (hkey : (d.address originalTag).sameKey a = true) :
    d.carriedFrom reference = reference.othersAt a := by
  obtain ⟨saved, hsaved, hsame⟩ := h
  have hfor : d.IsFor a.package a.container a.key := hkey
  rw [hfor.sourceAt_eq] at hsaved
  exact carriedFrom_of_source hfor hsaved hsame

theorem Directive.carriedFrom_of_changed (href : reference.WellFormed)
    (h : ¬ d.Unchanged reference) : d.carriedFrom reference = [] := by
  rw [List.eq_nil_iff_forall_not_mem]
  intro t ht
  exact h (d.mem_carriedFrom href ht).2.2

theorem Directive.translation?_save (ho : output.WellFormed) (reference : Project) (d : Directive)
    (a : Address) :
    (d.save reference output).1.translation? a =
      (writesTo a (d.written reference).writes).foldl overwrite (output.translation? a) := by
  rw [fst_save, Project.translation?_setAll ho]

/-- **Saving a directive** sets its source text, carries the translations of the
    reference over if the source text is unchanged, and leaves all else as it is. -/
theorem isSaved_save {reference output : Project} (href : reference.Reachable)
    (ho : output.Reachable) {d : Directive} (htext : d.text ≠ "") :
    d.IsSaved reference output (d.save reference output).1 (d.save reference output).2 := by
  have hsave := Directive.translation?_save ho.wellFormed reference d
  have hself : (d.address originalTag).sameKey (d.address originalTag) = true := by
    simp [Address.sameKey]
  refine ⟨?source, ?unchanged, ?count_unchanged, ?changed, ?count_changed, ?elsewhere⟩
  case source =>
    intro a hkey horiginal
    rw [hsave, Directive.writesTo_written_of_original href.wellFormed hkey horiginal]
    exact overwrite_of_ne_empty htext _
  case unchanged =>
    intro hunchanged a hkey hother
    rw [hsave, Directive.writesTo_written_of_other hkey hother, hunchanged.carriedFrom_eq hkey,
      href.wellFormed.filter_othersAt hother]
    rcases ht : reference.translation? a with _ | t
    · rfl
    · exact overwrite_of_ne_empty (href.wellFormed.text_ne_empty ht) _
  case count_unchanged =>
    intro hunchanged
    have hcount : (d.save reference output).2 = (d.carriedFrom reference).length := rfl
    rw [hcount, hunchanged.carriedFrom_eq hself, Project.othersAt]
    simp only [Translation.isOriginal_eq]
  case changed =>
    intro hchanged a hkey hother
    rw [hsave, Directive.writesTo_written_of_other hkey hother,
      Directive.carriedFrom_of_changed href.wellFormed hchanged]
    rfl
  case count_changed =>
    intro hchanged
    exact congrArg List.length (Directive.carriedFrom_of_changed href.wellFormed hchanged)
  case elsewhere =>
    intro a hkey
    rw [hsave, Directive.writesTo_written_of_elsewhere hkey]
    rfl

/-- A catalog with translations of a key, under other spellings. -/
def translated : Project :=
  ((Project.new "Mission").set ⟨"main", "Intro", "str_greet", "GERMAN"⟩ "Moin").set
    ⟨"main", "Intro", "str_greet", "Polish"⟩ "Hej"

/-- The source text is the one that was read, and the German text that of the
    reference. -/
theorem isSaved_save_greeting :
    greeting.Reachable ∧ translated.Reachable ∧ "HELLO" ≠ "" ∧
      Directive.IsSaved greeting ⟨"Main", "intro", "STR_greet", "HELLO"⟩ translated
        ⟨"Mission", [⟨"main", [⟨"Intro", [⟨"str_greet",
          [⟨"GERMAN", "Hallo"⟩, ⟨"Polish", "Hej"⟩, ⟨"Original", "HELLO"⟩]⟩]⟩]⟩]⟩ 1 := by
  have hreachable : translated.Reachable := ((Project.Reachable.new _).set _ _).set _ _
  have hsave : Directive.save greeting ⟨"Main", "intro", "STR_greet", "HELLO"⟩ translated =
      (⟨"Mission", [⟨"main", [⟨"Intro", [⟨"str_greet",
        [⟨"GERMAN", "Hallo"⟩, ⟨"Polish", "Hej"⟩, ⟨"Original", "HELLO"⟩]⟩]⟩]⟩]⟩, 1) := by
    decide +kernel
  have hsaved := isSaved_save (d := ⟨"Main", "intro", "STR_greet", "HELLO"⟩) reachable_greeting
    hreachable (by decide)
  rw [hsave] at hsaved
  exact ⟨reachable_greeting, hreachable, by decide, hsaved⟩

end MissionText
