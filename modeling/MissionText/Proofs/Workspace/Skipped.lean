/-
  Interchange files that cannot be read.

  * `isSkipped_of_read_eq_error`: an import lists a file that cannot be read with its
    error, and is otherwise as if the file were not there.
  * `isSkipped_unsupportedVersion`: which files are skipped for their version.
-/
import MissionText.Proofs.Workspace.Interchange
import MissionText.Proofs.Xliff.Version

namespace MissionText

/-! ## Files that are there -/

namespace FileTree

variable {t : FileTree} {l : Location} {path : String}

theorem removeFile_of_file {content : Bytes} (h : t.locate path = .ok l)
    (hnode : t.node? l = some (.file content)) : t.removeFile path = .ok (t.drop l) := by
  rw [removeFile, h]
  simp only [bind, Except.bind, hnode]
  rfl

/-- A file that was removed is not there. -/
theorem isFile_drop {content : Bytes} (h : t.locate path = .ok l)
    (hnode : t.node? l = some (.file content)) : (t.drop l).isFile path = false := by
  have hnot : t.node? l ≠ some .directory := by simp [hnode]
  have hlocate := locate_of_keeps (keepsDirectories_drop hnot) rfl h
  rw [Bool.eq_false_iff, ne_eq, isFile_iff hlocate, node?_drop t (ne_nil_of_node? hnot),
    if_pos rfl]
  simp

/-- What a name below a path leads to stands in the directory of the path. -/
theorem leadsTo_of_locate_join {directory : String} (hne : directory ≠ "") {name : String}
    (hname : IsFileName name) (h : t.locate (FilePath.join directory name) = .ok l) :
    ∃ dir, t.LeadsTo directory dir ∧ l = dir ++ [name] := by
  obtain ⟨-, hwalk, -⟩ := locate_eq_ok.1 h
  rw [names_join hne hname, origin_join hne hname.noSlash] at hwalk
  obtain ⟨dir, hdir, hlast⟩ := walk_append_eq_ok.1 hwalk
  obtain ⟨hnode, hlast⟩ := walk_cons_eq_ok.1 hlast
  rw [if_neg hname.notUp] at hlast
  exact ⟨dir, ⟨hdir, hnode⟩, (Except.ok.inj hlast).symm⟩

end FileTree

namespace Workspace

variable {w : Workspace} {t t' : FileTree} {dir : Location}

/-! ## Languages -/

theorem readLanguages_append (w : Workspace) (t : FileTree) (ls ms : List Language) (p : Project) :
    w.readLanguages t (ls ++ ms) p =
      ((w.readLanguages t ms (w.readLanguages t ls p).1).1,
        ⟨(w.readLanguages t ls p).2.imported ++
            (w.readLanguages t ms (w.readLanguages t ls p).1).2.imported,
          (w.readLanguages t ls p).2.failed ++
            (w.readLanguages t ms (w.readLanguages t ls p).1).2.failed⟩) := by
  induction ls generalizing p with
  | nil => rfl
  | cons l ls ih =>
    rw [List.cons_append, readLanguages_cons, readLanguages_cons]
    split_ifs
    · split
      · next d hd =>
        dsimp only
        rw [ih]
        rfl
      · next e he =>
        dsimp only
        rw [ih]
        rfl
    · exact ih p

/-- A file that is not there brings nothing. -/
theorem readLanguages_of_missing {l : Language}
    (h : t.isFile (w.interchangePath (some l)) = false) (ls ms : List Language) (p : Project) :
    w.readLanguages t (ls ++ l :: ms) p = w.readLanguages t (ls ++ ms) p := by
  have hrest (p : Project) : w.readLanguages t (l :: ms) p = w.readLanguages t ms p := by
    rw [readLanguages_cons, h, if_neg Bool.false_ne_true]
  rw [readLanguages_append, readLanguages_append, hrest]

/-- A file that cannot be read brings nothing, but is listed. -/
theorem readLanguages_of_failed {l : Language} {e : Error}
    (h : t.isFile (w.interchangePath (some l)) = true)
    (hread : (readDocument t (w.interchangePath (some l))).bind Xliff.Document.read = .error e)
    (ls ms : List Language) (p : Project) :
    ∃ q imported before after,
      w.readLanguages t (ls ++ ms) p = (q, ⟨imported, before ++ after⟩) ∧
        w.readLanguages t (ls ++ l :: ms) p =
          (q, ⟨imported, before ++ ⟨w.interchangePath (some l), e⟩ :: after⟩) := by
  have hrest (p : Project) : w.readLanguages t (l :: ms) p =
      ((w.readLanguages t ms p).1, ⟨(w.readLanguages t ms p).2.imported,
        ⟨w.interchangePath (some l), e⟩ :: (w.readLanguages t ms p).2.failed⟩) := by
    rw [readLanguages_cons, if_pos h, hread]
  refine ⟨_, _, _, _, readLanguages_append w t ls ms p, ?_⟩
  rw [readLanguages_append, hrest]

/-- Languages whose files are the same bring the same. -/
theorem readLanguages_congr (h : t.LeadsTo w.interchangeDir dir)
    (h' : t'.LeadsTo w.interchangeDir dir) {ls : List Language}
    (hsame : ∀ l ∈ ls, t'.node? (dir ++ [interchangeName (some l)]) =
      t.node? (dir ++ [interchangeName (some l)])) (p : Project) :
    w.readLanguages t' ls p = w.readLanguages t ls p := by
  induction ls generalizing p with
  | nil => rfl
  | cons l ls ih =>
    obtain ⟨hl, hls⟩ := List.forall_mem_cons.1 hsame
    have hlocate := locate_interchangePath h (some l)
    have hlocate' := locate_interchangePath h' (some l)
    have hfile : t'.isFile (w.interchangePath (some l)) = t.isFile (w.interchangePath (some l)) := by
      simp only [FileTree.isFile, FileTree.lookup?, hlocate, hlocate', hl]
    have hread : readDocument t' (w.interchangePath (some l)) =
        readDocument t (w.interchangePath (some l)) := by
      simp only [readDocument, FileTree.openFile, hlocate, hlocate', bind, Except.bind, hl]
    rw [readLanguages_cons, readLanguages_cons, hfile, hread]
    simp only [ih hls]

/-! ## Files that are skipped -/

theorem readDocument_eq_ok {path : String} {content : Bytes} (h : t.readFile path = .ok content) :
    readDocument t path = .ok content := by
  obtain ⟨l, hlocate, hnode⟩ := FileTree.readFile_eq_ok h
  rw [readDocument, FileTree.openFile, hlocate]
  simp only [bind, Except.bind, hnode]
  rfl

theorem readInterchange_eq_ok (h : t.LeadsTo w.interchangeDir dir) (p : Project) :
    w.readInterchange t p = .ok (w.readLanguages t Language.all p) := by
  have hempty := String.isEmpty_eq_false_iff.2 w.interchangeDir_ne_empty
  rw [readInterchange, if_pos (h.isDirectory hempty)]

/-- **The file of a language is skipped** for an error: an import lists it, and is
    otherwise what it is without the file. -/
def IsSkipped (w : Workspace) (t : FileTree) (l : Language) (e : Error) : Prop :=
  ∃ t', t.removeFile (w.interchangePath (some l)) = .ok t' ∧ ∀ p, ∃ q imported before after,
    w.readInterchange t' p = .ok (q, ⟨imported, before ++ after⟩) ∧
      w.readInterchange t p =
        .ok (q, ⟨imported, before ++ ⟨w.interchangePath (some l), e⟩ :: after⟩)

/-- **A file that cannot be read is skipped.** -/
theorem isSkipped_of_read_eq_error {l : Language} {content : Bytes} {e : Error}
    (hfile : t.readFile (w.interchangePath (some l)) = .ok content)
    (hread : Xliff.Document.read content = .error e) : w.IsSkipped t l e := by
  obtain ⟨place, hlocate, hnode⟩ := FileTree.readFile_eq_ok hfile
  obtain ⟨dir, hleads, rfl⟩ := FileTree.leadsTo_of_locate_join w.interchangeDir_ne_empty
    (isFileName_interchangeName (some l)) (interchangePath_eq w (some l) ▸ hlocate)
  have hnot : t.node? (dir ++ [interchangeName (some l)]) ≠ some .directory := by simp [hnode]
  have hleads' := hleads.of_keeps (FileTree.keepsDirectories_drop hnot) rfl
  have hgone := FileTree.isFile_drop hlocate hnode
  have hthere := (FileTree.isFile_iff hlocate).2 ⟨content, hnode⟩
  have hdocument : (readDocument t (w.interchangePath (some l))).bind Xliff.Document.read =
      .error e := by
    rw [readDocument_eq_ok hfile]
    exact hread
  -- The files of all other languages are in both trees.
  obtain ⟨ls, ms, hall⟩ := List.append_of_mem l.mem_all
  have hsame : ∀ m ∈ ls ++ ms, (t.drop (dir ++ [interchangeName (some l)])).node?
      (dir ++ [interchangeName (some m)]) = t.node? (dir ++ [interchangeName (some m)]) := by
    have hnodup : Language.all.Nodup := by decide
    rw [hall, List.nodup_middle, List.nodup_cons] at hnodup
    intro m hm
    rw [FileTree.node?_drop t (FileTree.ne_nil_of_node? hnot), if_neg]
    intro heq
    have hname := interchangeName_injective (List.cons.inj (List.append_cancel_left heq)).1
    exact hnodup.1 (Option.some.inj hname ▸ hm)
  refine ⟨_, FileTree.removeFile_of_file hlocate hnode, fun p => ?_⟩
  obtain ⟨q, imported, before, after, hwithout, hwith⟩ :=
    readLanguages_of_failed hthere hdocument ls ms p
  refine ⟨q, imported, before, after, ?_, ?_⟩
  · rw [readInterchange_eq_ok hleads', hall, readLanguages_of_missing hgone,
      readLanguages_congr hleads hleads' hsame, hwithout]
  · rw [readInterchange_eq_ok hleads, hall, hwith]

/-! ## Versions -/

section

variable {bs : Bytes} {root : Xml.Element} {value : String}

/-- **A document is rejected for its version** exactly if its major version starts with
    neither `1` nor `2`, and then it is skipped by every import. -/
theorem isSkipped_unsupportedVersion (hparse : Xml.parseDocument bs = .ok root)
    (hname : root.name = "xliff") (hvalue : Xliff.filled? root "version" = some value) :
    (Xliff.Document.readUtf8 bs = .error (.unsupportedVersion value) ↔
        ∀ c ∈ (Xliff.Version.major value).toList.head?, c ≠ '1' ∧ c ≠ '2') ∧
      ((∀ c ∈ (Xliff.Version.major value).toList.head?, c ≠ '1' ∧ c ≠ '2') →
        ∀ (w : Workspace) (t : FileTree) (l : Language) (content : Bytes),
          t.readFile (w.interchangePath (some l)) = .ok content → Encoding.toUtf8 content = bs →
            w.IsSkipped t l (.unsupportedVersion value)) := by
  have hiff := Xliff.Document.readUtf8_eq_unsupportedVersion_iff hparse hname hvalue
  refine ⟨hiff, fun hmajor w t l content hfile hcontent => isSkipped_of_read_eq_error hfile ?_⟩
  rw [Xliff.Document.read, hcontent]
  exact hiff.2 hmajor

end

/-- A document of version 1.2 with one source text. -/
def oneSegment : Xliff.Document :=
  ⟨.v1_2, "P", "en", some .german, [⟨"Main", [⟨"c", [⟨"k", "Hi", none⟩]⟩]⟩]⟩

/-- The document, but with another version in it. -/
def claiming (value : String) : Bytes :=
  utf8 (Xml.printDocument (Xliff.element1As value oneSegment))

theorem parseDocument_claiming (value : String) : Xml.parseDocument (claiming value) =
    .ok (Xliff.element1As value oneSegment).reread :=
  Xml.parseDocument_printDocument (Xliff.isPrintable_element1As rfl value)

/-- A mission with nothing but a file for one language. -/
def germanTree (content : Bytes) : FileTree :=
  ⟨[], [(["m"], .directory), (["m", "l10n"], .directory),
    (["m", "l10n", "strings_de.xlf"], .file content)]⟩

theorem readFile_germanTree (content : Bytes) :
    (germanTree content).readFile (interchangePath ⟨"m"⟩ (some .german)) = .ok content := by
  rfl

/-- The third major version is rejected, also with white space around it. -/
theorem isSkipped_unsupportedVersion_three :
    Xliff.Document.readUtf8 (claiming " 3.0 ") = .error (.unsupportedVersion " 3.0 ") ∧
      IsSkipped ⟨"m"⟩ (germanTree (claiming " 3.0 ")) .german (.unsupportedVersion " 3.0 ") := by
  obtain ⟨hiff, hskipped⟩ := isSkipped_unsupportedVersion (parseDocument_claiming " 3.0 ")
    (Xliff.name_element1As " 3.0 " oneSegment) (Xliff.filled?_element1As (by decide) oneSegment)
  have hthree : (Xliff.Version.major " 3.0 ").toList.head? = some '3' := by decide
  have hmajor : ∀ c ∈ (Xliff.Version.major " 3.0 ").toList.head?, c ≠ '1' ∧ c ≠ '2' := by
    rw [hthree]
    rintro c ⟨⟩
    decide
  refine ⟨hiff.2 hmajor, hskipped hmajor ⟨"m"⟩ _ .german _ (readFile_germanTree _) ?_⟩
  exact Xml.toUtf8_printDocument _

/-- **The tenth major version is taken for the first one.** -/
theorem readUtf8_claiming_ten :
    (∃ root, Xml.parseDocument (claiming "10.0") = .ok root ∧ root.name = "xliff" ∧
        Xliff.filled? root "version" = some "10.0") ∧
      Xliff.Version.major "10.0" = "10" ∧
      Xliff.Document.readUtf8 (claiming "10.0") = .ok oneSegment := by
  refine ⟨⟨_, parseDocument_claiming "10.0", Xliff.name_element1As "10.0" oneSegment,
    Xliff.filled?_element1As (by decide) oneSegment⟩, by decide, ?_⟩
  exact Xliff.readUtf8_element1As (d := oneSegment) rfl (by decide) (by decide)

end Workspace

end MissionText
