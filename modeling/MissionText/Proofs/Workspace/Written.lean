/-
  The stringtable that a command writes, read again.

  * `readStringtable_of_writeStringtable`: what is read is the document that was
    written.
  * `readStringtable_written_iff`: when the catalog that `import` or `extract`
    passes on to be written is read back as it was.  Interchange files may have
    segments without an id, whose keys are not read back; tags of the reference
    may have two prefixes, of which each reading takes one.
-/
import MissionText.Command.Run
import MissionText.Proofs.FileTree
import MissionText.Proofs.Script.Names
import MissionText.Proofs.Workspace.Languages

namespace MissionText

open FileTree (Change)
open FileTree.Change

namespace Workspace

variable {w : Workspace} {p : Project} {t t' : FileTree}

/-! ## Reading what was written -/

theorem exists_replaceFile_of_writeStringtable {backup made : Bool} {seconds : Nat}
    (h : w.writeStringtable p backup seconds t = .ok made t') :
    ∃ t₁ u, replaceFile w.stringtablePath (utf8 (Stringtable.render p)) t₁ = .ok u t' := by
  simp only [writeStringtable, bind, get, getThe, MonadStateOf.get, pure] at h
  obtain ⟨t₁, t₂, hget, h⟩ := bind_eq_ok.1 h
  split at h
  · obtain ⟨_, t₃, -, h⟩ := bind_eq_ok.1 h
    obtain ⟨u, t₄, hreplace, h⟩ := bind_eq_ok.1 h
    cases h
    exact ⟨t₃, u, hreplace⟩
  · obtain ⟨u, t₄, hreplace, h⟩ := bind_eq_ok.1 h
    cases h
    exact ⟨t₂, u, hreplace⟩

/-- **The stringtable that is read is the document that was written.** -/
theorem readStringtable_of_writeStringtable {backup made : Bool} {seconds : Nat}
    (h : w.writeStringtable p backup seconds t = .ok made t') :
    w.readStringtable t' = Stringtable.readUtf8 (utf8 (Stringtable.render p)) := by
  obtain ⟨t₁, u, hreplace⟩ := exists_replaceFile_of_writeStringtable h
  obtain ⟨t₂, hwrite⟩ := exists_writeFile_of_replaceFile hreplace
  have hopen := FileTree.openFile_writeFile hwrite
  have hread : readDocument t' w.stringtablePath = .ok (utf8 (Stringtable.render p)) := by
    rw [readDocument, hopen]
  rw [readStringtable, hread]
  simp only [bind, Except.bind]
  rw [Stringtable.read, Stringtable.render, Xml.toUtf8_printIndented]

end Workspace

/-! ## What an extraction writes -/

theorem Stringtable.hasOnly_of_ofElement {root : Xml.Element} {p : Project}
    (h : Stringtable.ofElement root = .ok p) : p.HasOnly (· ≠ "") fun _ => True := by
  rw [ofElement] at h
  dsimp only at h
  split_ifs at h
  obtain rfl := Except.ok.inj h
  refine (Project.hasOnly_new _).setAll fun a ha => ?_
  obtain ⟨g, -, ha⟩ := List.mem_flatMap.1 ha
  obtain ⟨c, -, ha⟩ := List.mem_flatMap.1 ha
  obtain ⟨k, -, ha⟩ := List.mem_flatMap.1 ha
  rw [keyWrites] at ha
  split_ifs at ha with hid
  · cases ha
  · obtain ⟨e, -, rfl⟩ := List.mem_map.1 ha
    exact ⟨String.isEmpty_eq_false_iff.1 (Bool.eq_false_iff.2 hid), trivial⟩

namespace Workspace

variable {w : Workspace} {p : Project} {t : FileTree}

theorem hasOnly_of_readStringtable (h : w.readStringtable t = .ok p) :
    p.HasOnly (· ≠ "") fun _ => True := by
  rw [readStringtable] at h
  rcases hcontent : readDocument t w.stringtablePath with e | content
  · rw [hcontent] at h
    cases h
  · rw [hcontent] at h
    simp only [bind, Except.bind, Stringtable.read, Stringtable.readUtf8] at h
    rcases hroot : (Xml.parseDocument (Encoding.toUtf8 content)).mapError
        Error.ofDocumentFault with e | root
    · rw [hroot] at h
      cases h
    · rw [hroot] at h
      exact Stringtable.hasOnly_of_ofElement h

/-! ## The two commands -/

/-- The catalog that an import passes on to be written. -/
def imported? (w : Workspace) (settings : Settings) (t : FileTree) : Option Project :=
  (w.readInterchange t (.new (settings.nameOfProject none))).toOption.map Prod.fst

/-- The catalog that an extraction passes on to be written. -/
def extracted (w : Workspace) (settings : Settings) (t : FileTree) : Project :=
  let reference? := (w.readStringtable t).toOption
  (extractFiles t (reference?.getD .default) (scriptPaths t w.root)
    (.new (settings.nameOfProject (reference?.map Project.name)))).1

variable {settings : Settings} {backup quiet : Bool} {seconds : Nat}

theorem imported?_eq_some : w.imported? settings t = some p ↔
    t.isDirectory w.interchangeDir = true ∧
      (w.readLanguages t Language.all (.new (settings.nameOfProject none))).1 = p := by
  unfold imported? readInterchange
  split_ifs with hdirectory
  · simp [Except.toOption, hdirectory]
  · simp [Except.toOption, hdirectory]

theorem exists_runImport_eq (hp : w.imported? settings t = some p) :
    ∃ stdout stderr, runImport w settings backup quiet seconds t =
      if p.isEmpty then ⟨"", stderr, some .nothingImported, t⟩
      else match w.writeStringtable p (settings.keepsBackup backup) seconds t with
        | .error e t => ⟨"", stderr, some (.writingStringtable e), t⟩
        | .ok _ t => ⟨stdout, stderr, none, t⟩ := by
  obtain ⟨hdirectory, rfl⟩ := imported?_eq_some.1 hp
  have hread : w.readInterchange t (.new (settings.nameOfProject none)) =
      .ok (w.readLanguages t Language.all (.new (settings.nameOfProject none))) := by
    rw [readInterchange, if_pos hdirectory]
  unfold runImport
  simp only [hread]
  exact ⟨_, _, rfl⟩

theorem exists_runExtract_eq (w : Workspace) (settings : Settings) (backup quiet : Bool)
    (seconds : Nat) (t : FileTree) :
    ∃ stdout, runExtract w settings backup quiet seconds t =
      if (w.extracted settings t).isEmpty then ⟨stdout, "", none, t⟩
      else match w.writeStringtable (w.extracted settings t) (settings.keepsBackup backup) seconds
          t with
        | .error e t => .fail (.writingStringtable e) t
        | .ok _ t => ⟨stdout, "", none, t⟩ := by
  unfold runExtract extracted
  exact ⟨_, rfl⟩

/-- **An import that succeeds writes its catalog.** -/
theorem failure?_runImport_eq_none (hp : w.imported? settings t = some p) :
    (runImport w settings backup quiet seconds t).failure? = none ↔
      p.isEmpty = false ∧ ∃ made, w.writeStringtable p (settings.keepsBackup backup) seconds t =
        .ok made (runImport w settings backup quiet seconds t).files := by
  obtain ⟨stdout, stderr, hrun⟩ := exists_runImport_eq hp
  rw [hrun]
  rcases p.isEmpty with _ | _
  · rcases w.writeStringtable p (settings.keepsBackup backup) seconds t with ⟨made, t'⟩ | ⟨e, t'⟩
    · simp
    · simp
  · simp

/-- **An extraction that succeeds writes its catalog**, unless that is empty. -/
theorem failure?_runExtract_eq_none (hne : (w.extracted settings t).isEmpty = false) :
    (runExtract w settings backup quiet seconds t).failure? = none ↔
      ∃ made, w.writeStringtable (w.extracted settings t) (settings.keepsBackup backup) seconds t =
        .ok made (runExtract w settings backup quiet seconds t).files := by
  obtain ⟨stdout, hrun⟩ := exists_runExtract_eq w settings backup quiet seconds t
  rw [hrun, hne]
  rcases w.writeStringtable (w.extracted settings t) (settings.keepsBackup backup) seconds t with
    ⟨made, t'⟩ | ⟨e, t'⟩
  · simp
  · simp [CommandResult.fail]

theorem imported_wellFormed (hp : w.imported? settings t = some p) :
    p.WellFormed ∧ p.HasOnly (fun _ => True) IsPlainName := by
  obtain ⟨-, rfl⟩ := imported?_eq_some.1 hp
  exact ⟨wellFormed_readLanguages _ (Project.wellFormed_new _),
    hasOnly_readLanguages _ (Project.hasOnly_new _)⟩

theorem extracted_wellFormed (w : Workspace) (settings : Settings) (t : FileTree) :
    (w.extracted settings t).WellFormed ∧
      (w.extracted settings t).HasOnly (· ≠ "") fun _ => True := by
  have href : ((w.readStringtable t).toOption.getD .default).HasOnly (· ≠ "") fun _ => True := by
    rcases hread : w.readStringtable t with e | p
    · exact Project.hasOnly_new _
    · exact hasOnly_of_readStringtable hread
  unfold extracted
  dsimp only
  obtain ⟨scripts, hscripts⟩ := exists_extractFiles_eq t
    ((w.readStringtable t).toOption.getD .default)
    (.new (settings.nameOfProject ((w.readStringtable t).toOption.map Project.name)))
    (scriptPaths t w.root)
  rw [hscripts]
  exact ⟨wellFormed_extractAll (Project.wellFormed_new _) scripts,
    hasOnly_extractAll href (Project.hasOnly_new _) scripts⟩

/-- **The catalog that an import wrote is read back** exactly if all keys have ids. -/
theorem readStringtable_runImport_iff (hp : w.imported? settings t = some p)
    (hok : (runImport w settings backup quiet seconds t).failure? = none) :
    w.readStringtable (runImport w settings backup quiet seconds t).files = .ok p ↔
      ∀ k ∈ p.keys, k.id ≠ "" := by
  obtain ⟨hne, made, hwrite⟩ := (failure?_runImport_eq_none hp).1 hok
  obtain ⟨hwell, hplain⟩ := imported_wellFormed hp
  have htags : ∀ k ∈ p.keys, ∀ t ∈ k.translations, ':' ∉ t.language.toList :=
    fun k hk t ht => ((hplain k hk).2 t ht).notMem (by decide)
  rw [readStringtable_of_writeStringtable hwrite,
    Stringtable.readUtf8_render_eq_ok_iff hwell hne
      fun k hk t ht => ((hplain k hk).2 t ht).isTagName]
  exact and_iff_left htags

/-- **The catalog that an extraction wrote is read back** exactly if no tag has a
    colon, where all tags can be written. -/
theorem readStringtable_runExtract_iff (hne : (w.extracted settings t).isEmpty = false)
    (hok : (runExtract w settings backup quiet seconds t).failure? = none)
    (htags : ∀ k ∈ (w.extracted settings t).keys, ∀ t ∈ k.translations,
      Xml.IsTagName t.language) :
    w.readStringtable (runExtract w settings backup quiet seconds t).files =
        .ok (w.extracted settings t) ↔
      ∀ k ∈ (w.extracted settings t).keys, ∀ t ∈ k.translations, ':' ∉ t.language.toList := by
  obtain ⟨made, hwrite⟩ := (failure?_runExtract_eq_none hne).1 hok
  obtain ⟨hwell, hids⟩ := extracted_wellFormed w settings t
  rw [readStringtable_of_writeStringtable hwrite,
    Stringtable.readUtf8_render_eq_ok_iff hwell hne htags]
  exact and_iff_right fun k hk => (hids k hk).1

/-- **When the stringtable that a command writes is read back as it was.**  After
    an import: exactly if all keys have ids.  After an extraction, whose tags may
    be whatever the reference has: if they can be written at all, exactly if no
    tag has a colon. -/
theorem readStringtable_written_iff (w : Workspace) (settings : Settings) (backup quiet : Bool)
    (seconds : Nat) (t : FileTree) :
    (∀ p, w.imported? settings t = some p →
      (runImport w settings backup quiet seconds t).failure? = none →
      (w.readStringtable (runImport w settings backup quiet seconds t).files = .ok p ↔
        ∀ k ∈ p.keys, k.id ≠ "")) ∧
    ∀ p, w.extracted settings t = p → p.isEmpty = false →
      (runExtract w settings backup quiet seconds t).failure? = none →
      (∀ k ∈ p.keys, ∀ t ∈ k.translations, Xml.IsTagName t.language) →
      (w.readStringtable (runExtract w settings backup quiet seconds t).files = .ok p ↔
        ∀ k ∈ p.keys, ∀ t ∈ k.translations, ':' ∉ t.language.toList) := by
  constructor
  · intro p hp hok
    exact readStringtable_runImport_iff hp hok
  · rintro p rfl hne hok htags
    exact readStringtable_runExtract_iff hne hok htags

/-- Files with a segment that has no id. -/
def strayFiles : FileTree :=
  ⟨[], [(["l10n"], .directory), (["l10n", "strings_de.xlf"], .file (utf8
    ("<xliff version=\"2\" trgLang=\"de\"><file><group id=\"M\"><unit id=\"c\">" ++
      "<segment><source>a</source></segment></unit></group></file></xliff>")))]⟩

def strayCatalog : Project := ⟨"My Project", [⟨"M", [⟨"c", [⟨"", [⟨"Original", "a"⟩]⟩]⟩]⟩]⟩

theorem imported?_strayFiles :
    imported? ⟨"."⟩ ⟨none, none, none, none⟩ strayFiles = some strayCatalog := by
  decide +kernel

theorem failure?_strayFiles :
    (runImport ⟨"."⟩ ⟨none, none, none, none⟩ false true 0 strayFiles).failure? = none := by
  obtain ⟨stdout, stderr, hrun⟩ := exists_runImport_eq imported?_strayFiles
  rw [hrun]
  rfl

/-- Files with a script and a reference that has a tag with two prefixes. -/
def prefixedFiles : FileTree :=
  ⟨[], [(["a.sqf"], .file (utf8 "// TR m c k \"x\"")), (["stringtable.xml"], .file (utf8
    ("<Project><Package name=\"m\"><Container name=\"c\"><Key ID=\"k\">" ++
      "<Original>x</Original><p:q:r>y</p:q:r></Key></Container></Package></Project>")))]⟩

def prefixedCatalog : Project :=
  ⟨"My Project", [⟨"m", [⟨"c", [⟨"k", [⟨"Original", "x"⟩, ⟨"q:r", "y"⟩]⟩]⟩]⟩]⟩

theorem extracted_prefixedFiles :
    extracted ⟨"."⟩ ⟨none, none, none, none⟩ prefixedFiles = prefixedCatalog := by
  decide +kernel

/-- A key without an id and a tag with two prefixes are not read back. -/
theorem readStringtable_ne_stray_prefixed :
    readStringtable ⟨"."⟩
        (runImport ⟨"."⟩ ⟨none, none, none, none⟩ false true 0 strayFiles).files ≠
      .ok strayCatalog ∧
    readStringtable ⟨"."⟩
        (runExtract ⟨"."⟩ ⟨none, none, none, none⟩ false true 0 prefixedFiles).files ≠
      .ok prefixedCatalog := by
  constructor
  · intro hread
    have hids := ((readStringtable_written_iff ⟨"."⟩ ⟨none, none, none, none⟩ false true 0
      strayFiles).1 strayCatalog imported?_strayFiles failure?_strayFiles).1 hread
    exact absurd hids (by decide)
  · have hok : (runExtract ⟨"."⟩ ⟨none, none, none, none⟩ false true 0 prefixedFiles).failure? =
        none := by
      obtain ⟨stdout, hrun⟩ := exists_runExtract_eq ⟨"."⟩ ⟨none, none, none, none⟩ false true 0
        prefixedFiles
      rw [hrun, extracted_prefixedFiles]
      rfl
    intro hread
    have hcolon := ((readStringtable_written_iff ⟨"."⟩ ⟨none, none, none, none⟩ false true 0
      prefixedFiles).2 prefixedCatalog extracted_prefixedFiles rfl hok (by decide)).1 hread
    exact absurd hcolon (by decide)

/-- An import succeeds and writes a stringtable that is not read back. -/
theorem readStringtable_ne_of_runImport :
    (runImport ⟨"."⟩ ⟨none, none, none, none⟩ false true 0 strayFiles).failure? = none ∧
      ∃ p, imported? ⟨"."⟩ ⟨none, none, none, none⟩ strayFiles = some p ∧
        readStringtable ⟨"."⟩
          (runImport ⟨"."⟩ ⟨none, none, none, none⟩ false true 0 strayFiles).files ≠ .ok p := by
  refine ⟨failure?_strayFiles, strayCatalog, imported?_strayFiles, fun hread => ?_⟩
  have hids := (readStringtable_runImport_iff imported?_strayFiles failure?_strayFiles).1 hread
  exact absurd hids (by decide)

end Workspace

end MissionText
