/-
  The languages of a catalog.

  A catalog takes tags for one language if they are the same under `sameFolded`;
  the list of its languages is made with `sameAscii`.

  * `ListsOnce`: for a notion of sameness, a list has one tag for each language of
    some tags, spelled as first seen and in the order of first occurrence.
  * `listsOnce_foldl_addLanguage`: the list of languages is one for `sameAscii`.
  * `listsOnce_languages_iff`: it is one for `sameFolded` if and only if no two tags
    of the catalog differ in the case of letters beyond ASCII.
-/
import Mathlib.Data.List.Induction
import MissionText.Catalog.Search
import MissionText.Proofs.Catalog.WellFormed

namespace MissionText

/-! ## Lists of languages -/

section

variable (same : String → String → Bool)

/-- The tag at a position is the same as none before it. -/
def IsFirstAt (tags : List String) (i : Nat) (l : String) : Prop :=
  tags[i]? = some l ∧ ∀ j < i, ∀ t, tags[j]? = some t → same t l = false

/-- A list of the languages of some tags. -/
structure ListsOnce (tags ls : List String) : Prop where
  /-- Of the language of each tag there is exactly one. -/
  once : ∀ t ∈ tags, ls.countP (same · t) = 1
  /-- Each is spelled as its language is first seen. -/
  first : ∀ l ∈ ls, ∃ i, IsFirstAt same tags i l
  /-- They are in the order in which they are first seen. -/
  ordered : ls.Pairwise fun l m =>
    ∃ i j, i < j ∧ IsFirstAt same tags i l ∧ IsFirstAt same tags j m

end

section

variable {same same' : String → String → Bool} {tags ls : List String}

theorem IsFirstAt.lt_length {i : Nat} {l : String} (h : IsFirstAt same tags i l) :
    i < tags.length := (List.getElem?_eq_some_iff.1 h.1).1

theorem IsFirstAt.mem {i : Nat} {l : String} (h : IsFirstAt same tags i l) : l ∈ tags :=
  List.mem_of_getElem? h.1

theorem IsFirstAt.append {i : Nat} {l : String} (h : IsFirstAt same tags i l)
    (rest : List String) : IsFirstAt same (tags ++ rest) i l := by
  have hi := h.lt_length
  refine ⟨by rw [List.getElem?_append_left hi, h.1], fun j hj t ht => h.2 j hj t ?_⟩
  rwa [List.getElem?_append_left (Nat.lt_trans hj hi)] at ht

theorem IsFirstAt.congr (h : ∀ s ∈ tags, ∀ t ∈ tags, same s t = same' s t) {i : Nat} {l : String}
    (hl : IsFirstAt same tags i l) : IsFirstAt same' tags i l := by
  refine ⟨hl.1, fun j hj t ht => ?_⟩
  rw [← h t (List.mem_of_getElem? ht) l hl.mem]
  exact hl.2 j hj t ht

theorem ListsOnce.subset (h : ListsOnce same tags ls) : ls ⊆ tags := by
  intro l hl
  obtain ⟨i, hi⟩ := h.first l hl
  exact hi.mem

/-- Only the tags that there are count. -/
theorem ListsOnce.congr (hsame : ∀ s ∈ tags, ∀ t ∈ tags, same s t = same' s t)
    (h : ListsOnce same tags ls) : ListsOnce same' tags ls := by
  constructor
  case once =>
    intro t ht
    rw [← h.once t ht]
    refine List.countP_congr fun l hl => ?_
    rw [hsame l (h.subset hl) t ht]
  case first =>
    intro l hl
    obtain ⟨i, hi⟩ := h.first l hl
    exact ⟨i, hi.congr hsame⟩
  case ordered =>
    refine h.ordered.imp ?_
    rintro l m ⟨i, j, hij, hi, hj⟩
    exact ⟨i, j, hij, hi.congr hsame, hj.congr hsame⟩

theorem ListsOnce.exists_same (h : ListsOnce same tags ls) {t : String} (ht : t ∈ tags) :
    ∃ l ∈ ls, same l t = true :=
  List.countP_pos_iff.1 (by rw [h.once t ht]; exact Nat.one_pos)

theorem ListsOnce.eq_of_same (h : ListsOnce same tags ls) {l m t : String} (ht : t ∈ tags)
    (hl : l ∈ ls) (hlt : same l t = true) (hm : m ∈ ls) (hmt : same m t = true) : l = m := by
  have hone := h.once t ht
  rw [List.countP_eq_length_filter] at hone
  obtain ⟨x, hx⟩ := List.length_eq_one_iff.1 hone
  have hlx : l ∈ ls.filter (same · t) := List.mem_filter.2 ⟨hl, hlt⟩
  have hmx : m ∈ ls.filter (same · t) := List.mem_filter.2 ⟨hm, hmt⟩
  rw [hx, List.mem_singleton] at hlx hmx
  rw [hlx, hmx]

end

/-! ## Adding languages one by one -/

section

variable {tags ls : List String} {t : String}

theorem ListsOnce.concat_of_listed (h : ListsOnce sameAscii tags ls)
    (ht : ls.any (sameAscii · t) = true) : ListsOnce sameAscii (tags ++ [t]) ls := by
  obtain ⟨m, hm, hmt⟩ := List.any_eq_true.1 ht
  constructor
  case once =>
    intro s hs
    rcases List.mem_append.1 hs with hs | hs
    · exact h.once s hs
    · rw [List.mem_singleton.1 hs, ← h.once m (h.subset hm)]
      refine List.countP_congr fun l _ => ?_
      rw [sameAscii_comm l t, sameAscii_comm l m, sameAscii_left hmt]
  case first =>
    intro l hl
    obtain ⟨i, hi⟩ := h.first l hl
    exact ⟨i, hi.append [t]⟩
  case ordered =>
    refine h.ordered.imp ?_
    rintro l m ⟨i, j, hij, hi, hj⟩
    exact ⟨i, j, hij, hi.append [t], hj.append [t]⟩

theorem ListsOnce.concat_of_new (h : ListsOnce sameAscii tags ls)
    (ht : ls.any (sameAscii · t) = false) : ListsOnce sameAscii (tags ++ [t]) (ls ++ [t]) := by
  have hlisted (l : String) (hl : l ∈ ls) : sameAscii l t = false :=
    Bool.eq_false_iff.2 fun hsame => List.any_eq_false.1 ht l hl hsame
  have htags (s : String) (hs : s ∈ tags) : sameAscii s t = false := by
    obtain ⟨l, hl, hsame⟩ := h.exists_same hs
    rw [← sameAscii_left hsame, hlisted l hl]
  have hnew : IsFirstAt sameAscii (tags ++ [t]) tags.length t := by
    refine ⟨List.getElem?_concat_length, fun j hj s hs => htags s ?_⟩
    rw [List.getElem?_append_left hj] at hs
    exact List.mem_of_getElem? hs
  constructor
  case once =>
    intro s hs
    rw [List.countP_append, List.countP_singleton]
    rcases List.mem_append.1 hs with hs | hs
    · rw [h.once s hs, sameAscii_comm t s, htags s hs]
      rfl
    · rw [List.mem_singleton.1 hs, sameAscii_refl, List.countP_eq_zero.2]
      · rfl
      · intro l hl
        rw [hlisted l hl]
        exact Bool.false_ne_true
  case first =>
    intro l hl
    rcases List.mem_append.1 hl with hl | hl
    · obtain ⟨i, hi⟩ := h.first l hl
      exact ⟨i, hi.append [t]⟩
    · rw [List.mem_singleton.1 hl]
      exact ⟨tags.length, hnew⟩
  case ordered =>
    refine List.pairwise_append.2 ⟨?_, List.pairwise_singleton _ _, ?_⟩
    · refine h.ordered.imp ?_
      rintro l m ⟨i, j, hij, hi, hj⟩
      exact ⟨i, j, hij, hi.append [t], hj.append [t]⟩
    · intro l hl m hm
      obtain ⟨i, hi⟩ := h.first l hl
      rw [List.mem_singleton.1 hm]
      exact ⟨i, tags.length, hi.lt_length, hi.append [t], hnew⟩

end

/-- **Tags added one by one** are a list of their languages, if only the case of
    ASCII letters is ignored. -/
theorem listsOnce_foldl_addLanguage (tags : List String) :
    ListsOnce sameAscii tags (tags.foldl addLanguage []) := by
  -- From the end, as the last tag is compared with the list of those before it.
  induction tags using List.reverseRecOn with
  | nil => exact ⟨List.forall_mem_nil _, List.forall_mem_nil _, List.Pairwise.nil⟩
  | append_singleton tags t ih =>
    rw [List.foldl_append, List.foldl_cons, List.foldl_nil, addLanguage]
    split_ifs with ht
    · exact ih.concat_of_listed ht
    · exact ih.concat_of_new (Bool.eq_false_iff.2 ht)

/-! ## The languages of a project -/

namespace Project

/-- The tags of all translations of a project, in declaration order. -/
def tags (p : Project) : List String :=
  p.keys.flatMap fun k => k.translations.map Translation.language

/-- **The languages of a project** are listed once each if only the case of ASCII
    letters is ignored; as the project compares tags, exactly if none of its tags
    differ in the case of another letter. -/
theorem listsOnce_languages_iff (p : Project) :
    ListsOnce sameAscii p.tags p.languages ∧
      (ListsOnce sameFolded p.tags p.languages ↔
        ∀ s ∈ p.tags, ∀ t ∈ p.tags, sameFolded s t = true → sameAscii s t = true) := by
  have hascii : ListsOnce sameAscii p.tags p.languages := listsOnce_foldl_addLanguage p.tags
  refine ⟨hascii, ?_, ?_⟩
  · intro hfolded s hs t ht hst
    obtain ⟨l, hl, hls⟩ := hascii.exists_same hs
    obtain ⟨m, hm, hmt⟩ := hascii.exists_same ht
    have hlt : sameFolded l t = true := sameFolded_trans (sameFolded_of_sameAscii hls) hst
    have heq := hfolded.eq_of_same ht hl hlt hm (sameFolded_of_sameAscii hmt)
    rwa [← sameAscii_left hls, heq]
  · intro hcase
    refine hascii.congr fun s hs t ht => Bool.eq_iff_iff.2 ⟨sameFolded_of_sameAscii, ?_⟩
    exact hcase s hs t ht

/-- A project whose two keys have a text in one language, spelled in two ways. -/
def czech : Project :=
  ((new "Test").set ⟨"Main", "intro", "greet", "Čeština"⟩ "Ahoj").set
    ⟨"Main", "intro", "leave", "čeština"⟩ "Sbohem"

theorem reachable_czech : czech.Reachable := ((Reachable.new _).set _ _).set _ _

theorem languages_czech : czech.languages = ["Čeština", "čeština"] := by decide +kernel

/-- **One language may be listed twice.** -/
theorem not_listsOnce_languages_czech :
    czech.Reachable ∧ czech.languages = ["Čeština", "čeština"] ∧
      ¬ ListsOnce sameFolded czech.tags czech.languages := by
  refine ⟨reachable_czech, languages_czech, fun h => ?_⟩
  have hone := h.once "Čeština" (by decide +kernel)
  rw [languages_czech] at hone
  exact absurd hone (by decide +kernel)

end Project

end MissionText
