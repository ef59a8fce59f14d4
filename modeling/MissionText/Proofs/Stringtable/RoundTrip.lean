/-
  Written stringtables are read back.

  * `readText_render`: a catalog that the operations on catalogs lead to, with
    plain names for tags and with ids for all keys, is read back as it was,
    whatever characters its names and texts have.
  * `readUtf8_render_eq_ok_iff`: among the catalogs whose tags can be written at
    all, those with ids for all keys and without colons in tags are the only ones
    that are read back as they were.
-/
import Mathlib.Data.Finset.Max
import MissionText.Proofs.Catalog.Names
import MissionText.Proofs.Stringtable.Written

namespace MissionText

/-! ## Round trip -/

namespace Stringtable

theorem readUtf8_render_of_legible {p : Project} (h : p.WellFormed) (hne : p.isEmpty = false)
    (htag : ∀ k ∈ p.keys, ∀ t ∈ k.translations, Xml.IsTagName t.language)
    (hid : ∀ k ∈ p.keys, k.id ≠ "")
    (hcolon : ∀ k ∈ p.keys, ∀ t ∈ k.translations, ':' ∉ t.language.toList) :
    readUtf8 (utf8 (render p)) = .ok p := by
  have hlegible : p.legible = p :=
    Project.legible_eq_self hid fun k hk t ht => Xml.localName_eq_self (hcolon k hk t ht)
  rw [readUtf8_render htag, hlegible, h.setAll_writes, hne]
  rfl

/-- **A written stringtable is read back as it was**: the same names and texts,
    character for character, in the same order. -/
theorem readText_render {p : Project} (h : p.Reachable) (hne : p.isEmpty = false)
    (hid : ∀ k ∈ p.keys, k.id ≠ "")
    (htag : ∀ k ∈ p.keys, ∀ t ∈ k.translations, IsPlainName t.language) :
    readText (render p) = .ok p := by
  refine readUtf8_render_of_legible h.wellFormed hne ?_ hid ?_
  · intro k hk t ht
    exact (htag k hk t ht).isTagName
  · intro k hk t ht
    exact (htag k hk t ht).notMem (by decide)

/-- A catalog with markup in its names and texts, and with tags that are taken for
    keys and containers. -/
def awkwardProject : Project :=
  ⟨"<M & \"N\">",
    [⟨" P]]>", [⟨"'C'\n", [⟨"&lt;k&gt;",
      [⟨"Key", "  a < b ]]> &amp; \"c\"\n"⟩, ⟨"Container", "\ttext "⟩]⟩]⟩]⟩,
      ⟨"Q", [⟨"", [⟨"Stré", [⟨"Original", "\r\n"⟩]⟩]⟩]⟩]⟩

theorem readText_render_awkward : readText (render awkwardProject) = .ok awkwardProject := by
  have hwrites : (Project.new "<M & \"N\">").setAll
      [(⟨" P]]>", "'C'\n", "&lt;k&gt;", "Key"⟩, "  a < b ]]> &amp; \"c\"\n"),
        (⟨" p]]>", "'c'\n", "&LT;K&GT;", "Container"⟩, "\ttext "),
        (⟨"Q", "", "Stré", "Original"⟩, "\r\n")] = awkwardProject := by
    decide
  refine readText_render ?_ rfl ?_ ?_
  · rw [← hwrites]
    exact (Project.Reachable.new _).setAll _
  · decide
  · decide

/-! ## What else is read back -/

/-- Tags that are all local names of one another have no prefix: the longest one
    with a prefix would be the local name of a longer one. -/
theorem notMem_of_localName {tags : List String}
    (h : ∀ l ∈ tags, ∃ m ∈ tags, l = Xml.localName m) : ∀ l ∈ tags, ':' ∉ l.toList := by
  intro l hl hcolon
  have hprefixed {m : String} :
      m ∈ tags.toFinset.filter (':' ∈ ·.toList) ↔ m ∈ tags ∧ ':' ∈ m.toList := by
    rw [Finset.mem_filter, List.mem_toFinset]
  obtain ⟨longest, hmem, hlongest⟩ :=
    Finset.exists_max_image _ String.length ⟨l, hprefixed.2 ⟨hl, hcolon⟩⟩
  obtain ⟨htag, hcolon⟩ := hprefixed.1 hmem
  obtain ⟨m, hm, hlocal⟩ := h longest htag
  by_cases hmcolon : ':' ∈ m.toList
  · have hle := hlongest m (hprefixed.2 ⟨hm, hmcolon⟩)
    have hlt := Xml.localName_length_lt hmcolon
    rw [← hlocal] at hlt
    omega
  · rw [Xml.localName_eq_self hmcolon] at hlocal
    exact hmcolon (hlocal ▸ hcolon)

/-- What is read back has ids, and local names for tags. -/
theorem hasOnly_setAll_legible (p : Project) :
    ((Project.new p.name).setAll p.legible.writes).HasOnly (· ≠ "")
      fun l => ∃ k ∈ p.keys, ∃ t ∈ k.translations, l = Xml.localName t.language := by
  refine (Project.hasOnly_new p.name).setAll fun w hw => ?_
  obtain ⟨_, hg', hw⟩ := List.mem_flatMap.1 hw
  obtain ⟨g, hg, rfl⟩ := List.mem_map.1 hg'
  obtain ⟨_, hc', hw⟩ := List.mem_flatMap.1 hw
  obtain ⟨c, hc, rfl⟩ := List.mem_map.1 hc'
  obtain ⟨_, hk', hw⟩ := List.mem_flatMap.1 hw
  obtain ⟨k, hkept, rfl⟩ := List.mem_map.1 hk'
  obtain ⟨hk, hid⟩ := List.mem_filter.1 hkept
  obtain ⟨_, ht', rfl⟩ := List.mem_map.1 hw
  obtain ⟨t, ht, rfl⟩ := List.mem_map.1 ht'
  refine ⟨?_, k, ?_, t, ht, rfl⟩
  · have hfull : k.id.isEmpty = false := by simpa using hid
    exact String.isEmpty_eq_false_iff.1 hfull
  · exact Project.mem_keys.2 ⟨g, hg, c, hc, hk⟩

/-- **Which stringtables are read back as they were**, of those whose tags can be
    written: those where all keys have ids and no tag has a colon. -/
theorem readUtf8_render_eq_ok_iff {p : Project} (h : p.WellFormed) (hne : p.isEmpty = false)
    (htag : ∀ k ∈ p.keys, ∀ t ∈ k.translations, Xml.IsTagName t.language) :
    readUtf8 (utf8 (render p)) = .ok p ↔
      (∀ k ∈ p.keys, k.id ≠ "") ∧
        ∀ k ∈ p.keys, ∀ t ∈ k.translations, ':' ∉ t.language.toList := by
  constructor
  · intro hread
    have hlegible : (Project.new p.name).setAll p.legible.writes = p := by
      rw [readUtf8_render htag] at hread
      split_ifs at hread
      exact Except.ok.inj hread
    have hall : p.HasOnly (· ≠ "")
        fun l => ∃ k ∈ p.keys, ∃ t ∈ k.translations, l = Xml.localName t.language := by
      have honly := hasOnly_setAll_legible p
      rwa [hlegible] at honly
    have hmem {l : String} :
        l ∈ p.keys.flatMap (fun k => k.translations.map Translation.language) ↔
          ∃ k ∈ p.keys, ∃ t ∈ k.translations, t.language = l := by
      simp only [List.mem_flatMap, List.mem_map]
    have hcover : ∀ l ∈ p.keys.flatMap (fun k => k.translations.map Translation.language),
        ∃ m ∈ p.keys.flatMap (fun k => k.translations.map Translation.language),
          l = Xml.localName m := by
      intro l hl
      obtain ⟨k, hk, t, ht, rfl⟩ := hmem.1 hl
      obtain ⟨k', hk', t', ht', hlocal⟩ := (hall k hk).2 t ht
      exact ⟨t'.language, hmem.2 ⟨k', hk', t', ht', rfl⟩, hlocal⟩
    refine ⟨fun k hk => (hall k hk).1, fun k hk t ht => ?_⟩
    exact notMem_of_localName hcover t.language (hmem.2 ⟨k, hk, t, ht, rfl⟩)
  · rintro ⟨hid, hcolon⟩
    exact readUtf8_render_of_legible h hne htag hid hcolon

end Stringtable

end MissionText
