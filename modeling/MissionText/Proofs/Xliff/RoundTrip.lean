/-
  Documents of any kind after a round trip.

  `Document.readText_render_eq` says what a written document is read as, whatever
  its ids and texts are: without a target language or without groups it is
  rejected, else it comes back with the defaults for what was blank.  It does
  not matter in which version a document is written.
-/
import MissionText.Proofs.Xliff.Codec

namespace MissionText.Xliff

open Xml

theorem Document.outcome_version (d : Document) (v : Version) :
    ({ d with version := v } : Document).outcome = d.outcome.map ({ · with version := v }) := by
  unfold outcome withGroups filled
  rcases d.target with _ | l
  · rfl
  · rcases d.groups with _ | ⟨g, gs⟩
    · rfl
    · rfl

/-- **What a written document is read as**, for all ids and texts and in either
    version. -/
theorem Document.readText_render_eq (d : Document) :
    (readText d.render =
      match d.target, d.groups with
      | none, _ => .error (.missingField .targetLanguage)
      | some _, [] => .error (.malformed .noGroups)
      | some _, _ :: _ =>
        .ok { d with
          projectId := if isBlank d.projectId then "My_Project" else d.projectId
          sourceLanguage := if isBlank d.sourceLanguage then "en" else d.sourceLanguage }) ∧
    ∀ v : Version, readText ({ d with version := v } : Document).render =
      (readText d.render).map ({ · with version := v }) := by
  have hread (d : Document) : readText d.render = d.outcome := d.readUtf8_render
  have hid : defaultProjectId = "My_Project" := by decide
  constructor
  · rw [hread, outcome]
    rcases htarget : d.target with _ | l
    · rfl
    · rcases hgroups : d.groups with _ | ⟨g, gs⟩
      · simp [withGroups, filled, hgroups]
      · simp [withGroups, filled, hgroups, htarget, hid, defaultSourceLanguage]
  · intro v
    rw [hread, hread, outcome_version]

end MissionText.Xliff
