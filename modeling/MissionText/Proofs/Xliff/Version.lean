/-
  Which versions of documents are read.

  * `Version.major` is the part of a version before its first dot.
  * `readUtf8_eq`: a document is read as the version that the first character of its
    major version stands for.
  * `readUtf8_eq_unsupportedVersion_iff`: no other fault of a document is reported as
    an unsupported version.
  * `readUtf8_element1As`: a document of version 1.2 that claims to be of another
    version is read all the same if that version starts with the same digit.
-/
import MissionText.Proofs.Xliff.Codec

namespace MissionText.Xliff

open Xml (Element)

/-! ## Major versions -/

namespace Version

/-- The part of a version before its first dot, without white space around it. -/
def major (value : String) : String :=
  String.ofList ((Text.trim value.toList).takeWhile (· ≠ '.'))

/-- The version that a digit stands for. -/
def ofDigit? (c : Char) : Option Version :=
  if c = '1' then some v1_2 else if c = '2' then some v2_0 else none

theorem ofDigit?_eq_none_iff {c : Char} : ofDigit? c = none ↔ c ≠ '1' ∧ c ≠ '2' := by
  unfold ofDigit?
  split_ifs with h1 h2
  · simp [h1]
  · simp [h2]
  · simp [h1, h2]

/-- **The version of a document** depends on nothing but the first character of its
    major version. -/
theorem ofAttribute_eq (value : String) : ofAttribute value =
    match (major value).toList.head?.bind ofDigit? with
    | some version => .ok version
    | none => .error (.unsupportedVersion value) := by
  rw [major, String.toList_ofList, List.head?_takeWhile, ofAttribute]
  split
  · next cs h => rw [h]; rfl
  · next cs h => rw [h]; rfl
  · next h1 h2 =>
    rcases htrim : Text.trim value.toList with _ | ⟨c, cs⟩
    · rfl
    · have hc : ofDigit? c = none := by
        rw [ofDigit?_eq_none_iff]
        refine ⟨?_, ?_⟩
        · rintro rfl
          exact h1 cs htrim
        · rintro rfl
          exact h2 cs htrim
      rw [List.head?_cons, Option.filter_some]
      split_ifs
      · rw [Option.bind_some, hc]
      · rfl

end Version

/-! ## Faults -/

theorem bind_ne_error {α β : Type} {e : Error} {x : Except Error α} {f : α → Except Error β}
    (hx : x ≠ .error e) (hf : ∀ a, f a ≠ .error e) : x.bind f ≠ .error e := by
  rcases x with e' | a
  · exact fun h => hx (congrArg Except.error (Except.error.inj h))
  · exact hf a

variable (value : String)

theorem child_ne_unsupportedVersion (e : Element) (name : String) :
    child e name ≠ .error (.unsupportedVersion value) := by
  unfold child
  split
  · simp
  · simp

theorem targetLanguage_ne_unsupportedVersion (code : Option String) :
    targetLanguage code ≠ .error (.unsupportedVersion value) := by
  unfold targetLanguage
  split
  · simp
  · split
    · simp
    · simp

theorem withGroups_ne_unsupportedVersion (d : Document) :
    withGroups d ≠ .error (.unsupportedVersion value) := by
  unfold withGroups
  split_ifs
  · simp
  · simp

theorem document1_ne_unsupportedVersion (root : Element) :
    document1 root ≠ .error (.unsupportedVersion value) :=
  bind_ne_error (child_ne_unsupportedVersion value root "file") fun _ =>
    bind_ne_error (targetLanguage_ne_unsupportedVersion value _) fun _ =>
      bind_ne_error (child_ne_unsupportedVersion value _ "body") fun _ =>
        withGroups_ne_unsupportedVersion value _

theorem document2_ne_unsupportedVersion (root : Element) :
    document2 root ≠ .error (.unsupportedVersion value) :=
  bind_ne_error (targetLanguage_ne_unsupportedVersion value _) fun _ =>
    bind_ne_error (child_ne_unsupportedVersion value root "file") fun _ =>
      withGroups_ne_unsupportedVersion value _

/-! ## Documents -/

/-- The document of a root element that is taken to be of a version. -/
def Version.readRoot : Version → Element → Except Error Document
  | .v1_2 => document1
  | .v2_0 => document2

theorem Version.readRoot_ne_unsupportedVersion (version : Version) (root : Element) :
    version.readRoot root ≠ .error (.unsupportedVersion value) := by
  cases version with
  | v1_2 => exact document1_ne_unsupportedVersion value root
  | v2_0 => exact document2_ne_unsupportedVersion value root

namespace Document

section

variable {bs : Bytes} {root : Element} {value : String}
  (hparse : Xml.parseDocument bs = .ok root) (hname : root.name = "xliff")
  (hvalue : filled? root "version" = some value)
include hparse hname hvalue

/-- **A document is read** as the version that its major version starts with. -/
theorem readUtf8_eq : readUtf8 bs =
    match (Version.major value).toList.head?.bind Version.ofDigit? with
    | some version => version.readRoot root
    | none => .error (.unsupportedVersion value) := by
  have hroot : readUtf8 bs = ofElement root := by
    rw [readUtf8, hparse]
    rfl
  have helement : ofElement root = (Version.ofAttribute value).bind (·.readRoot root) := by
    rw [ofElement, if_neg (not_not.2 hname), hvalue]
    dsimp only
    rcases Version.ofAttribute value with _ | (_ | _)
    · rfl
    · rfl
    · rfl
  rw [hroot, helement, Version.ofAttribute_eq]
  rcases (Version.major value).toList.head?.bind Version.ofDigit? with _ | version
  · rfl
  · rfl

/-- **Nothing else is reported as an unsupported version.** -/
theorem readUtf8_eq_unsupportedVersion_iff :
    readUtf8 bs = .error (.unsupportedVersion value) ↔
      ∀ c ∈ (Version.major value).toList.head?, c ≠ '1' ∧ c ≠ '2' := by
  have hdigit : (∀ c ∈ (Version.major value).toList.head?, c ≠ '1' ∧ c ≠ '2') ↔
      (Version.major value).toList.head?.bind Version.ofDigit? = none := by
    simp only [Option.bind_eq_none_iff, Version.ofDigit?_eq_none_iff, Option.mem_def]
  rw [readUtf8_eq hparse hname hvalue, hdigit]
  rcases (Version.major value).toList.head?.bind Version.ofDigit? with _ | version
  · simp
  · simpa using version.readRoot_ne_unsupportedVersion value root

end

end Document

/-! ## Documents that claim another version -/

/-- The element of a document in version 1.2, but with another version in it. -/
def element1As (value : String) (d : Document) : Element :=
  { element1 d with attributes := [("xmlns", Version.v1_2.xmlns), ("version", value)] }

variable {d : Document}

theorem isPrintable_element1As (hversion : d.version = .v1_2) (value : String) :
    (element1As value d).IsPrintable := by
  have helement : d.toElement = element1 d := by rw [Document.toElement, hversion]
  obtain ⟨hname, -, hcontent⟩ := helement ▸ d.isPrintable_toElement
  exact ⟨hname, areAttributes_of_keys ["xmlns", "version"] rfl (by decide), hcontent⟩

theorem name_element1As (value : String) (d : Document) :
    (element1As value d).reread.name = "xliff" := by
  have hxliff : IsPlainName "xliff" := by decide
  exact hxliff.localName_eq

theorem filled?_element1As {value : String} (h : isBlank value = false) (d : Document) :
    filled? (element1As value d).reread "version" = some value := by
  have hvalue : (element1As value d).reread.value? "version" = some value := rfl
  rw [filled?, hvalue, Option.filter_some, h]
  rfl

/-- The languages of a document in version 1.2 are not on its root. -/
theorem document1_element1As (value : String) (d : Document) :
    document1 (element1As value d).reread = document1 (element1 d).reread := by
  have hcontent : (element1As value d).reread.content = (element1 d).reread.content := rfl
  rw [document1, child, Element.child?, hcontent, document1, child, Element.child?]

/-- **A document that claims another version** is read as one of version 1.2 if the
    other version starts with the same digit. -/
theorem readUtf8_element1As (hversion : d.version = .v1_2) {value : String}
    (hblank : isBlank value = false)
    (hmajor : (Version.major value).toList.head? = some '1') :
    Document.readUtf8 (utf8 (Xml.printDocument (element1As value d))) = d.outcome := by
  have hparse := Xml.parseDocument_printDocument (isPrintable_element1As hversion value)
  have hdigit : (Version.major value).toList.head?.bind Version.ofDigit? = some .v1_2 := by
    rw [hmajor]
    rfl
  rw [Document.readUtf8_eq hparse (name_element1As value d) (filled?_element1As hblank d), hdigit]
  exact (document1_element1As value d).trans (document1_element1 hversion)

end MissionText.Xliff
