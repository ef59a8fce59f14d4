/-
  The ids and the tags that a catalog can have.

  `Project.HasOnly P Q`: all ids of keys satisfy `P` and all tags satisfy `Q`.
  Only writes bring new ids and tags, and each brings those of its address
  (`HasOnly.setAll`).
-/
import MissionText.Proofs.Catalog.WellFormed

namespace MissionText

/-- All ids of keys satisfy `P` and all tags satisfy `Q`. -/
def Project.HasOnly (P Q : String → Prop) (p : Project) : Prop :=
  ∀ k ∈ p.keys, P k.id ∧ ∀ t ∈ k.translations, Q t.language

namespace Project

variable {P Q : String → Prop} {p : Project}

theorem hasOnly_iff : p.HasOnly P Q ↔ ∀ g ∈ p.packages, ∀ c ∈ g.containers, ∀ k ∈ c.keys,
    P k.id ∧ ∀ t ∈ k.translations, Q t.language := by
  unfold HasOnly
  constructor
  · intro h g hg c hc k hk
    exact h k (mem_keys.2 ⟨g, hg, c, hc, hk⟩)
  · intro h k hk
    obtain ⟨g, hg, c, hc, hk⟩ := mem_keys.1 hk
    exact h g hg c hc k hk

theorem hasOnly_new (name : String) : (new name).HasOnly P Q := by
  rw [hasOnly_iff]
  exact List.forall_mem_nil _

/-- **A write brings the id and the tag of its address.** -/
theorem HasOnly.set (h : p.HasOnly P Q) {a : Address} (hk : P a.key) (hl : Q a.language)
    (text : String) : (p.set a text).HasOnly P Q := by
  rw [hasOnly_iff] at h ⊢
  have hkey (k : Key) (hid : P k.id ∧ ∀ t ∈ k.translations, Q t.language) :
      P (k.set a.language text).id ∧ ∀ t ∈ (k.set a.language text).translations, Q t.language := by
    refine ⟨hid.1, ?_⟩
    rw [Key.translations_set]
    exact Siblings.forall_edit hid.2 hl fun t ht => ht
  have hnew : P (Key.new a.key).id ∧ ∀ t ∈ (Key.new a.key).translations, Q t.language :=
    ⟨hk, List.forall_mem_nil _⟩
  have hcontainer (c : Container)
      (hc : ∀ k ∈ c.keys, P k.id ∧ ∀ t ∈ k.translations, Q t.language) :
      ∀ k ∈ (c.set a.key a.language text).keys, P k.id ∧ ∀ t ∈ k.translations, Q t.language := by
    rw [Container.keys_set]
    exact Siblings.forall_edit hc hnew hkey
  have hpackage (g : Package)
      (hg : ∀ c ∈ g.containers, ∀ k ∈ c.keys, P k.id ∧ ∀ t ∈ k.translations, Q t.language) :
      ∀ c ∈ (g.set a.container a.key a.language text).containers, ∀ k ∈ c.keys,
        P k.id ∧ ∀ t ∈ k.translations, Q t.language := by
    rw [Package.containers_set]
    exact Siblings.forall_edit hg (List.forall_mem_nil _) hcontainer
  rw [packages_set]
  exact Siblings.forall_edit h (List.forall_mem_nil _) hpackage

theorem HasOnly.setAll (h : p.HasOnly P Q) {ws : List (Address × String)}
    (hws : ∀ w ∈ ws, P w.1.key ∧ Q w.1.language) : (p.setAll ws).HasOnly P Q := by
  induction ws generalizing p with
  | nil => exact h
  | cons w ws ih =>
    obtain ⟨hk, hl⟩ := hws w List.mem_cons_self
    exact ih (h.set hk hl w.2) fun w hw => hws w (List.mem_cons_of_mem _ hw)

end Project

end MissionText
