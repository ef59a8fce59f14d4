/-
  What stands at a path, and after files are written.

  * `KeepsDirectories`: a tree has all directories of another; a path that leads
    somewhere in the one leads there in the other (`locate_of_keeps`).
  * `readFile_eq_ok`: what is read is the content of a file that is there.
  * `openFile_writeFile`: a file that was written has the content written.
  * `leadsTo_createDirs`: a directory that was created is there.
  * `locate_join`: a name below a path leads to that name below its location, and
    `createDirs_join` creates that one directory.
  * `replaceFile_eq_ok`: replacing a file succeeds unless a directory is in its
    place, and changes nothing else.
-/
import MissionText.FileTree.Change
import Mathlib.Tactic.Common

namespace MissionText

/-! ## Paths -/

namespace FilePath

theorem split_ne_nil (cs : List Char) : split cs ≠ [] := by
  cases cs with
  | nil => exact List.cons_ne_nil _ _
  | cons c cs =>
    rw [split]
    split
    · exact List.cons_ne_nil _ _
    · split <;> exact List.cons_ne_nil _ _

theorem split_append (xs ys : List Char) : split (xs ++ '/' :: ys) = split xs ++ split ys := by
  induction xs with
  | nil => rfl
  | cons x xs ih =>
    rw [List.cons_append, split, split]
    split_ifs
    · rw [ih, List.cons_append]
    · rw [ih]
      rcases hx : split xs with _ | ⟨part, parts⟩
      · exact absurd hx (split_ne_nil xs)
      · rfl

theorem split_of_notMem {xs : List Char} (h : '/' ∉ xs) : split xs = [xs] := by
  induction xs with
  | nil => rfl
  | cons x xs ih =>
    have hx : x ≠ '/' := fun he => h (he ▸ List.mem_cons_self)
    rw [split, if_neg hx, ih fun hm => h (List.mem_cons_of_mem _ hm)]

theorem parse_plain {path : List Char} (hroot : ∀ rest, path ≠ '/' :: rest)
    (hdot : path ≠ ['.']) (hhere : ∀ rest, path ≠ '.' :: '/' :: rest) :
    parse path = (.plain, split path) := by
  unfold parse
  split
  · next rest => exact absurd rfl (hroot rest)
  · exact absurd rfl hdot
  · next rest => exact absurd rfl (hhere rest)
  · rfl

/-- A name below a path keeps its start and its parts. -/
theorem parse_append {path : List Char} (h : path ≠ []) (name : List Char) :
    parse (path ++ '/' :: name) = ((parse path).1, (parse path).2 ++ split name) := by
  have hplain (hroot : ∀ rest, path ≠ '/' :: rest) (hdot : path ≠ ['.'])
      (hhere : ∀ rest, path ≠ '.' :: '/' :: rest) :
      parse (path ++ '/' :: name) = ((parse path).1, (parse path).2 ++ split name) := by
    rw [parse_plain hroot hdot hhere, parse_plain, split_append]
    · intro rest heq
      rcases List.append_eq_cons_iff.1 heq with ⟨hnil, -⟩ | ⟨cs, hcs, -⟩
      · exact h hnil
      · exact hroot cs hcs
    · intro heq
      have hlength := congrArg List.length heq
      have hpos := List.length_pos_iff.2 h
      simp only [List.length_append, List.length_cons, List.length_nil] at hlength
      omega
    · intro rest heq
      rcases path with _ | ⟨c, _ | ⟨d, cs⟩⟩
      · exact h rfl
      · obtain ⟨rfl, -⟩ := List.cons.inj heq
        exact hdot rfl
      · obtain ⟨rfl, htail⟩ := List.cons.inj heq
        obtain ⟨rfl, -⟩ := List.cons.inj htail
        exact hhere cs rfl
  rcases path with _ | ⟨c, cs⟩
  · exact absurd rfl h
  · by_cases hroot : c = '/'
    · subst hroot
      exact congrArg (Prod.mk Head.root) (split_append cs name)
    · by_cases hdot : c = '.'
      · subst hdot
        rcases cs with _ | ⟨d, ds⟩
        · rfl
        · by_cases hhere : d = '/'
          · subst hhere
            exact congrArg (Prod.mk Head.here) (split_append ds name)
          · refine hplain ?_ ?_ ?_
            · simp
            · simp
            · simpa using hhere
      · refine hplain ?_ ?_ ?_
        · simpa using hroot
        · simp [hdot]
        · simp [hdot]

end FilePath

namespace FileTree

variable {t t' : FileTree} {l : Location} {path : String}

/-! ## Nodes -/

theorem find?_replace (es : List (Location × FileNode)) (l m : Location) (n : FileNode) :
    (es.map fun e => if e.1 = l then (l, n) else e).find? (·.1 = m) =
      if m = l then (es.find? (·.1 = l)).map fun _ => (l, n) else es.find? (·.1 = m) := by
  induction es with
  | nil => simp
  | cons e es ih =>
    rw [List.map_cons, List.find?_cons, List.find?_cons, List.find?_cons, ih]
    by_cases he : e.1 = l
    · by_cases hm : m = l
      · simp [he, hm]
      · simp [he, hm, Ne.symm hm]
    · by_cases hm : m = l
      · simp [he, hm]
      · simp [he, hm]

theorem ne_nil_of_node? (h : t.node? l ≠ some .directory) : l ≠ [] := by
  rintro rfl
  exact h rfl

theorem node?_put (t : FileTree) {l : Location} (hl : l ≠ []) (n : FileNode) (m : Location) :
    (t.put l n).node? m = if m = l then some n else t.node? m := by
  by_cases hm : m = []
  · subst hm
    rw [if_neg hl.symm]
    rfl
  · have hm' : m.isEmpty = false := List.isEmpty_eq_false_iff.2 hm
    simp only [node?, put, hm', Bool.false_eq_true, if_false]
    by_cases hany : t.entries.any (·.1 = l) = true
    · obtain ⟨e, he⟩ := Option.isSome_iff_exists.1 (List.find?_isSome.2 (List.any_eq_true.1 hany))
      rw [if_pos hany, find?_replace, he]
      split_ifs <;> rfl
    · have hnone : t.entries.find? (·.1 = l) = none := by
        rw [List.find?_eq_none]
        intro e he hel
        exact hany (List.any_eq_true.2 ⟨e, he, hel⟩)
      rw [if_neg hany, List.find?_append]
      split_ifs with hml
      · subst hml
        simp [hnone]
      · simp [Ne.symm hml]

theorem node?_drop (t : FileTree) {l : Location} (hl : l ≠ []) (m : Location) :
    (t.drop l).node? m = if m = l then none else t.node? m := by
  by_cases hm : m = []
  · subst hm
    rw [if_neg hl.symm]
    rfl
  · have hm' : m.isEmpty = false := List.isEmpty_eq_false_iff.2 hm
    simp only [node?, drop, hm', Bool.false_eq_true, if_false, List.find?_filter]
    split_ifs with hml
    · subst hml
      rw [Option.map_eq_none_iff, List.find?_eq_none]
      simp
    · congr 2
      funext e
      by_cases he : e.1 = m
      · simp [he, hml]
      · simp [he]

/-! ## Directories that stay -/

/-- Every directory of the one tree is one of the other. -/
def KeepsDirectories (t t' : FileTree) : Prop :=
  ∀ l, t.node? l = some .directory → t'.node? l = some .directory

theorem KeepsDirectories.refl (t : FileTree) : KeepsDirectories t t := fun _ h => h

theorem KeepsDirectories.trans {t'' : FileTree} (h : KeepsDirectories t t')
    (h' : KeepsDirectories t' t'') : KeepsDirectories t t'' := fun l hl => h' l (h l hl)

theorem keepsDirectories_put (h : t.node? l ≠ some .directory) (n : FileNode) :
    KeepsDirectories t (t.put l n) := by
  intro m hm
  rw [node?_put t (ne_nil_of_node? h), if_neg, hm]
  rintro rfl
  exact h hm

theorem keepsDirectories_drop (h : t.node? l ≠ some .directory) :
    KeepsDirectories t (t.drop l) := by
  intro m hm
  rw [node?_drop t (ne_nil_of_node? h), if_neg, hm]
  rintro rfl
  exact h hm

theorem requireDirectory_eq_ok : t.requireDirectory l = .ok ⟨⟩ ↔ t.node? l = some .directory := by
  unfold requireDirectory
  split
  · next h => simp [h]
  · next h => simp [h]
  · next h => simp [h]

theorem requireDirectory_bind_eq_ok {α : Type} {f : Unit → Except IoError α} {a : α} :
    (t.requireDirectory l).bind f = .ok a ↔ t.node? l = some .directory ∧ f ⟨⟩ = .ok a := by
  rw [← requireDirectory_eq_ok]
  rcases t.requireDirectory l with e | ⟨⟩
  · simp [Except.bind]
  · simp [Except.bind]

theorem walk_cons_eq_ok {name : String} {names : List String} {r : Location} :
    t.walk l (name :: names) = .ok r ↔ t.node? l = some .directory ∧
      t.walk (if name = ".." then l.dropLast else l ++ [name]) names = .ok r := by
  rw [walk]
  exact requireDirectory_bind_eq_ok

theorem walk_of_keeps (h : KeepsDirectories t t') {names : List String} {r : Location}
    (hw : t.walk l names = .ok r) : t'.walk l names = .ok r := by
  induction names generalizing l with
  | nil => exact hw
  | cons name names ih =>
    obtain ⟨hl, hrest⟩ := walk_cons_eq_ok.1 hw
    exact walk_cons_eq_ok.2 ⟨h l hl, ih hrest⟩

theorem locate_eq_ok : t.locate path = .ok l ↔
    path.isEmpty = false ∧ t.walk (t.origin path) (names path) = .ok l ∧
      (endsIdle path = true → t.node? l = some .directory) := by
  by_cases hempty : path.isEmpty = true
  · have hlocate : t.locate path = .error .notFound := by
      rw [locate, hempty]
      rfl
    simp [hlocate, hempty]
  · have hempty : path.isEmpty = false := by simpa using hempty
    rcases hw : t.walk (t.origin path) (names path) with e | r
    · have hlocate : t.locate path = .error e := by
        rw [locate, hempty, hw]
        rfl
      simp [hlocate]
    · have hlocate : t.locate path =
          if endsIdle path then
            (t.requireDirectory r : Except IoError Unit).bind fun _ => .ok r
          else .ok r := by
        rw [locate, hempty, hw]
        rfl
      rw [hlocate]
      split_ifs with hidle
      · rw [requireDirectory_bind_eq_ok]
        constructor
        · rintro ⟨hr, hl⟩
          obtain rfl := Except.ok.inj hl
          exact ⟨hempty, rfl, fun _ => hr⟩
        · rintro ⟨-, hl, hr⟩
          obtain rfl := Except.ok.inj hl
          exact ⟨hr hidle, rfl⟩
      · simp [hempty, hidle]

theorem locate_of_keeps (h : KeepsDirectories t t') (hc : t'.current = t.current)
    (hl : t.locate path = .ok l) : t'.locate path = .ok l := by
  obtain ⟨hempty, hw, hidle⟩ := locate_eq_ok.1 hl
  have horigin : t'.origin path = t.origin path := by rw [origin, hc, origin]
  refine locate_eq_ok.2 ⟨hempty, ?_, fun hi => h l (hidle hi)⟩
  rw [horigin]
  exact walk_of_keeps h hw

/-! ## Reading -/

theorem isFile_iff (h : t.locate path = .ok l) :
    t.isFile path = true ↔ ∃ content, t.node? l = some (.file content) := by
  simp only [isFile, lookup?, h]
  rcases t.node? l with _ | (content | _)
  · simp
  · simp
  · simp

theorem isDirectory_iff (h : t.locate path = .ok l) :
    t.isDirectory path = true ↔ t.node? l = some .directory := by
  rw [isDirectory, lookup?, h]
  exact decide_eq_true_iff

theorem readFile_eq_ok {content : Bytes} (h : t.readFile path = .ok content) :
    ∃ l, t.locate path = .ok l ∧ t.node? l = some (.file content) := by
  rw [readFile, openFile] at h
  rcases hl : t.locate path with e | l
  · rw [hl] at h
    cases h
  · rw [hl] at h
    refine ⟨l, rfl, ?_⟩
    simp only [bind, Except.bind] at h
    rcases hnode : t.node? l with _ | (old | _)
    · rw [hnode] at h
      cases h
    · rw [hnode] at h
      rw [Except.ok.inj h]
    · rw [hnode] at h
      cases h

theorem isFile_of_readFile {content : Bytes} (h : t.readFile path = .ok content) :
    t.isFile path = true := by
  obtain ⟨l, hl, hnode⟩ := readFile_eq_ok h
  exact (isFile_iff hl).2 ⟨content, hnode⟩

/-! ## Writing -/

/-- **A file is written** where a path leads to, if a file is there or nothing is
    there in a directory. -/
theorem writeFile_eq_ok {content : Bytes} :
    t.writeFile path content = .ok t' ↔ path.toList.getLast? ≠ some '/' ∧
      ∃ l, t.locate path = .ok l ∧ t.node? l ≠ some .directory ∧
        (t.node? l = none → t.node? l.dropLast = some .directory) ∧
        t' = t.put l (.file content) := by
  by_cases hslash : path.toList.getLast? = some '/'
  · have hwrite : t.writeFile path content ≠ .ok t' := by
      rw [writeFile, if_pos hslash]
      rcases t.walk (t.origin path) (names path).dropLast with e | l
      · intro h
        cases h
      · rcases hr : (t.requireDirectory l : Except IoError Unit) with e | ⟨⟩
        · simp [bind, Except.bind, hr]
        · simp [bind, Except.bind, hr, throw, throwThe, MonadExceptOf.throw]
    simp [hslash, hwrite]
  · rcases hl : t.locate path with e | l
    · have hwrite : t.writeFile path content = .error e := by
        rw [writeFile, if_neg hslash, hl]
        rfl
      simp [hwrite]
    · rcases hn : t.node? l with _ | (old | _)
      · have hwrite : t.writeFile path content =
            (t.requireDirectory l.dropLast : Except IoError Unit).bind fun _ =>
              .ok (t.put l (.file content)) := by
          rw [writeFile, if_neg hslash, hl]
          simp only [bind, Except.bind, hn]
          rfl
        rw [hwrite, requireDirectory_bind_eq_ok]
        simp [hslash, hn, eq_comm]
      · have hwrite : t.writeFile path content = .ok (t.put l (.file content)) := by
          rw [writeFile, if_neg hslash, hl]
          simp only [bind, Except.bind, hn]
          rfl
        simp [hwrite, hslash, hn, eq_comm]
      · have hwrite : t.writeFile path content = .error .isDirectory := by
          rw [writeFile, if_neg hslash, hl]
          simp only [bind, Except.bind, hn]
          rfl
        simp [hwrite, hn]

/-- **A file that was written has the content written.** -/
theorem openFile_writeFile {content : Bytes} (h : t.writeFile path content = .ok t') :
    t'.openFile path = .ok (.file content) := by
  obtain ⟨-, l, hl, hnode, -, rfl⟩ := writeFile_eq_ok.1 h
  have hne : l ≠ [] := ne_nil_of_node? hnode
  have hlocate := locate_of_keeps (keepsDirectories_put hnode (.file content)) rfl hl
  rw [openFile, hlocate]
  simp only [bind, Except.bind, node?_put t hne, if_true]
  rfl

/-! ## Creating directories -/

/-- The names of a path lead to a directory. -/
def LeadsTo (t : FileTree) (path : String) (l : Location) : Prop :=
  t.walk (t.origin path) (names path) = .ok l ∧ t.node? l = some .directory

theorem LeadsTo.of_keeps (h : t.LeadsTo path l) (hk : KeepsDirectories t t')
    (hc : t'.current = t.current) : t'.LeadsTo path l := by
  have horigin : t'.origin path = t.origin path := by rw [origin, hc, origin]
  refine ⟨?_, hk l h.2⟩
  rw [horigin]
  exact walk_of_keeps hk h.1

theorem LeadsTo.isDirectory (h : t.LeadsTo path l) (hp : path.isEmpty = false) :
    t.isDirectory path = true := by
  have hlocate : t.locate path = .ok l := locate_eq_ok.2 ⟨hp, h.1, fun _ => h.2⟩
  rw [FileTree.isDirectory, lookup?, hlocate]
  exact decide_eq_true h.2

theorem createBelow_eq_ok {names : List String} (h : t.createBelow l names = .ok t')
    (hl : t.node? l = some .directory) :
    KeepsDirectories t t' ∧ t'.current = t.current ∧
      ∃ m, t'.walk l names = .ok m ∧ t'.node? m = some .directory := by
  induction names generalizing t l with
  | nil =>
    obtain rfl := Except.ok.inj h
    exact ⟨KeepsDirectories.refl t, rfl, l, rfl, hl⟩
  | cons name names ih =>
    rw [createBelow] at h
    split at h
    · next hnext =>
      obtain ⟨hk, hc, m, hw, hm⟩ := ih h hnext
      exact ⟨hk, hc, m, walk_cons_eq_ok.2 ⟨hk l hl, hw⟩, hm⟩
    · cases h
    · next hnext =>
      have hnot : t.node? (if name = ".." then l.dropLast else l ++ [name]) ≠
          some .directory := by
        rw [hnext]
        simp
      have hput := keepsDirectories_put hnot .directory
      have hnode := node?_put t (ne_nil_of_node? hnot) .directory
        (if name = ".." then l.dropLast else l ++ [name])
      rw [if_pos rfl] at hnode
      obtain ⟨hk, hc, m, hw, hm⟩ := ih h hnode
      exact ⟨hput.trans hk, hc, m, walk_cons_eq_ok.2 ⟨hk l (hput l hl), hw⟩, hm⟩

/-- **A directory that was created is there**, if there is a current directory. -/
theorem leadsTo_createDirs (h : t.createDirs path = .ok t')
    (hcurrent : t.node? t.current = some .directory) :
    KeepsDirectories t t' ∧ t'.current = t.current ∧ ∃ l, t'.LeadsTo path l := by
  have horigin : t.node? (t.origin path) = some .directory := by
    unfold origin
    split
    · rfl
    · exact hcurrent
  obtain ⟨hk, hc, l, hw, hl⟩ := createBelow_eq_ok h horigin
  have horigin' : t'.origin path = t.origin path := by rw [origin, hc, origin]
  refine ⟨hk, hc, l, ?_, hl⟩
  rw [horigin']
  exact hw

/-! ## Names below a directory -/

/-- A name that stands for itself in a path. -/
structure IsFileName (name : String) : Prop where
  noSlash : '/' ∉ name.toList
  notIdle : FilePath.isIdle name.toList = false
  notUp : name ≠ ".."

instance (name : String) : Decidable (IsFileName name) :=
  decidable_of_iff ('/' ∉ name.toList ∧ FilePath.isIdle name.toList = false ∧ name ≠ "..")
    ⟨fun h => ⟨h.1, h.2.1, h.2.2⟩, fun h => ⟨h.noSlash, h.notIdle, h.notUp⟩⟩

/-- A name is joined to a path as its last part, the others are those of the path
    but for idle ones. -/
theorem exists_parse_join {directory : String} (hne : directory ≠ "") {name : String}
    (hname : '/' ∉ name.toList) :
    ∃ texts, FilePath.parse (FilePath.join directory name).toList =
        ((FilePath.parse directory.toList).1, texts ++ [name.toList]) ∧
      texts.filter (!FilePath.isIdle ·) = FilePath.parts directory.toList := by
  have hempty : directory.isEmpty = false := by
    rw [Bool.eq_false_iff, ne_eq, String.isEmpty_iff]
    exact hne
  have hchars : directory.toList ≠ [] := fun hnil => hne (String.toList_eq_nil_iff.1 hnil)
  by_cases hlast : directory.toList.getLast? = some '/'
  · have hjoin : (FilePath.join directory name).toList = directory.toList ++ name.toList := by
      rw [FilePath.join, if_pos (by simp [hlast]), String.toList_append]
    obtain ⟨cs, hcs⟩ := List.getLast?_eq_some_iff.1 hlast
    rw [hjoin, FilePath.parts, hcs, List.append_assoc, List.singleton_append]
    by_cases hroot : cs = []
    · subst hroot
      exact ⟨[], congrArg (Prod.mk _) (FilePath.split_of_notMem hname), rfl⟩
    · refine ⟨(FilePath.parse cs).2, ?_, ?_⟩
      · rw [FilePath.parse_append hroot, FilePath.parse_append hroot,
          FilePath.split_of_notMem hname]
      · rw [FilePath.parse_append hroot]
        simp [FilePath.split, FilePath.isIdle]
  · have hjoin : (FilePath.join directory name).toList =
        directory.toList ++ '/' :: name.toList := by
      rw [FilePath.join, if_neg (by simp [hempty, hlast]), String.toList_append,
        String.toList_append, List.append_assoc]
      rfl
    refine ⟨(FilePath.parse directory.toList).2, ?_, rfl⟩
    rw [hjoin, FilePath.parse_append hchars, FilePath.split_of_notMem hname]

theorem walk_append {names : List String} {m : Location} (h : t.walk l names = .ok m)
    (hm : t.node? m = some .directory) {name : String} (hup : name ≠ "..") :
    t.walk l (names ++ [name]) = .ok (m ++ [name]) := by
  induction names generalizing l with
  | nil =>
    obtain rfl := Except.ok.inj h
    refine walk_cons_eq_ok.2 ⟨hm, ?_⟩
    rw [if_neg hup]
    rfl
  | cons n names ih =>
    obtain ⟨hl, hrest⟩ := walk_cons_eq_ok.1 h
    exact walk_cons_eq_ok.2 ⟨hl, ih hrest⟩

theorem walk_append_eq_ok {names names' : List String} {r : Location} :
    t.walk l (names ++ names') = .ok r ↔
      ∃ m, t.walk l names = .ok m ∧ t.walk m names' = .ok r := by
  induction names generalizing l with
  | nil => simp [walk]
  | cons name names ih =>
    rw [List.cons_append, walk_cons_eq_ok, ih]
    simp only [walk_cons_eq_ok, and_assoc, exists_and_left]

theorem names_join {directory : String} (hne : directory ≠ "") {name : String}
    (hname : IsFileName name) :
    names (FilePath.join directory name) = names directory ++ [name] := by
  obtain ⟨texts, hparse, htexts⟩ := exists_parse_join hne hname.noSlash
  rw [names, FilePath.parts, hparse, List.filter_append, htexts, List.map_append,
    List.filter_cons_of_pos (by simp [hname.notIdle])]
  simp [names]

theorem origin_join {directory : String} (hne : directory ≠ "") {name : String}
    (hname : '/' ∉ name.toList) (t : FileTree) :
    t.origin (FilePath.join directory name) = t.origin directory := by
  obtain ⟨texts, hparse, -⟩ := exists_parse_join hne hname
  rw [origin, hparse, origin]

/-- **A name below a path leads to that name below its location.** -/
theorem locate_join {directory : String} (hne : directory ≠ "") {name : String}
    (hname : IsFileName name) (h : t.LeadsTo directory l) :
    t.locate (FilePath.join directory name) = .ok (l ++ [name]) := by
  obtain ⟨texts, hparse, -⟩ := exists_parse_join hne hname.noSlash
  have hidle : endsIdle (FilePath.join directory name) = false := by
    rw [endsIdle, hparse, List.getLast?_concat]
    exact hname.notIdle
  refine locate_eq_ok.2 ⟨?_, ?_, ?_⟩
  · rw [Bool.eq_false_iff, ne_eq, String.isEmpty_iff]
    intro hnil
    have hlast := congrArg (fun r : FilePath.Head × _ => r.2.getLast?) hparse
    rw [hnil, List.getLast?_concat] at hlast
    have hidle' := hname.notIdle
    rw [← Option.some.inj hlast] at hidle'
    cases hidle'
  · rw [names_join hne hname, origin_join hne hname.noSlash]
    exact walk_append h.1 h.2 hname.notUp
  · rw [hidle]
    intro hfalse
    cases hfalse

theorem leadsTo_join {directory : String} (hne : directory ≠ "") {name : String}
    (hname : IsFileName name) (h : t.LeadsTo directory l)
    (hnode : t.node? (l ++ [name]) = some .directory) :
    t.LeadsTo (FilePath.join directory name) (l ++ [name]) := by
  refine ⟨?_, hnode⟩
  rw [names_join hne hname, origin_join hne hname.noSlash]
  exact walk_append h.1 h.2 hname.notUp

/-- A path that leads to a directory. -/
theorem exists_leadsTo (h : t.isDirectory path = true) : path ≠ "" ∧ ∃ l, t.LeadsTo path l := by
  rw [FileTree.isDirectory, lookup?, decide_eq_true_eq] at h
  split at h
  · next l hl =>
    obtain ⟨hempty, hwalk, -⟩ := locate_eq_ok.1 hl
    refine ⟨?_, l, hwalk, h⟩
    rintro rfl
    cases hempty
  · cases h

theorem node?_of_walk {names : List String} {m : Location} (h : t.walk l names = .ok m)
    (hm : t.node? m = some .directory) : t.node? l = some .directory := by
  cases names with
  | nil =>
    obtain rfl := Except.ok.inj h
    exact hm
  | cons name names => exact (walk_cons_eq_ok.1 h).1

/-- Directories that are there are left as they are. -/
theorem createBelow_append {names : List String} {m : Location} (h : t.walk l names = .ok m)
    (hm : t.node? m = some .directory) (names' : List String) :
    t.createBelow l (names ++ names') = t.createBelow m names' := by
  induction names generalizing l with
  | nil =>
    obtain rfl := Except.ok.inj h
    rfl
  | cons name names ih =>
    obtain ⟨-, hrest⟩ := walk_cons_eq_ok.1 h
    rw [List.cons_append, createBelow]
    simp only [node?_of_walk hrest hm]
    exact ih hrest

/-- **A directory below another is created** unless something is there. -/
theorem createDirs_join {directory : String} (hne : directory ≠ "") {name : String}
    (hname : IsFileName name) (h : t.LeadsTo directory l) :
    t.createDirs (FilePath.join directory name) =
      match t.node? (l ++ [name]) with
      | some .directory => .ok t
      | some (.file _) => .error .alreadyExists
      | none => .ok (t.put (l ++ [name]) .directory) := by
  rw [createDirs, origin_join hne hname.noSlash, names_join hne hname, createBelow_append h.1 h.2,
    createBelow, if_neg hname.notUp]
  rcases t.node? (l ++ [name]) with _ | (content | _) <;> rfl

/-! ## Replacing -/

namespace Change

theorem bind_eq_ok {α β : Type} {x : Change α} {f : α → Change β} {t t' : FileTree} {b : β} :
    EStateM.bind x f t = .ok b t' ↔ ∃ a t₁, x t = .ok a t₁ ∧ f a t₁ = .ok b t' := by
  unfold EStateM.bind
  rcases x t with ⟨a, t₁⟩ | ⟨e, t₁⟩
  · simp
  · simp

section

variable {α β : Type} {x : Change α} {t t₁ : FileTree}

theorem bind_ok {a : α} (h : x t = .ok a t₁) (f : α → Change β) : (x >>= f) t = f a t₁ := by
  change EStateM.bind x f t = f a t₁
  rw [EStateM.bind, h]

theorem bind_error {e : IoError} (h : x t = .error e t₁) (f : α → Change β) :
    (x >>= f) t = .error e t₁ := by
  change EStateM.bind x f t = .error e t₁
  rw [EStateM.bind, h]

theorem get_bind (f : FileTree → Change β) (t : FileTree) : (get >>= f) t = f t t :=
  rfl

end

theorem replaceFile_eq (path : String) (content : Bytes) (t : FileTree) :
    replaceFile path content t =
      if t.pathExists path then
        match t.removeFile path with
        | .ok t₁ => perform (·.writeFile path content) t₁
        | .error e => .error e t
      else perform (·.writeFile path content) t := by
  rw [replaceFile, get_bind]
  split_ifs
  · rcases hr : t.removeFile path with e | t₁
    · rw [bind_error (perform_eq_error hr)]
    · rw [bind_ok (perform_eq_ok hr)]
  · rfl

theorem exists_writeFile_of_replaceFile {content : Bytes} {u : PUnit} {t t' : FileTree}
    (h : replaceFile path content t = .ok u t') :
    ∃ t₁ : FileTree, t₁.writeFile path content = .ok t' := by
  have hperform : ∀ t₁ : FileTree, perform (·.writeFile path content) t₁ = .ok u t' →
      t₁.writeFile path content = .ok t' := by
    intro t₁ h
    rcases hw : t₁.writeFile path content with e | t₂
    · rw [perform_eq_error hw] at h
      cases h
    · rw [perform_eq_ok hw] at h
      cases h
      rfl
  rw [replaceFile_eq] at h
  split_ifs at h
  · split at h
    · next t₁ _ => exact ⟨t₁, hperform t₁ h⟩
    · cases h
  · exact ⟨t, hperform t h⟩

variable {t : FileTree} {l : Location} {path : String}

/-- **A file is replaced** in a directory, unless a directory is in its place. -/
theorem replaceFile_eq_ok (hslash : path.toList.getLast? ≠ some '/') (hl : t.locate path = .ok l)
    (hparent : t.node? l.dropLast = some .directory) (hnode : t.node? l ≠ some .directory)
    (content : Bytes) :
    ∃ t', replaceFile path content t = .ok ⟨⟩ t' ∧ t'.current = t.current ∧
      ∀ m, t'.node? m = if m = l then some (.file content) else t.node? m := by
  have hne : l ≠ [] := ne_nil_of_node? hnode
  rw [replaceFile_eq]
  rcases hn : t.node? l with _ | (old | _)
  · have hexists : t.pathExists path = false := by
      rw [pathExists, lookup?, hl]
      exact congrArg Option.isSome hn
    have hwrite : t.writeFile path content = .ok (t.put l (.file content)) :=
      writeFile_eq_ok.2 ⟨hslash, l, hl, hnode, fun _ => hparent, rfl⟩
    refine ⟨t.put l (.file content), ?_, rfl, node?_put t hne _⟩
    rw [hexists, if_neg Bool.false_ne_true, perform_eq_ok hwrite]
  · have hexists : t.pathExists path = true := by
      rw [pathExists, lookup?, hl]
      exact congrArg Option.isSome hn
    have hremove : t.removeFile path = .ok (t.drop l) := by
      rw [removeFile, hl]
      simp only [bind, Except.bind, hn]
      rfl
    have hkeeps := keepsDirectories_drop hnode
    have hgone : (t.drop l).node? l = none := by rw [node?_drop t hne, if_pos rfl]
    have hwrite : (t.drop l).writeFile path content = .ok ((t.drop l).put l (.file content)) :=
      writeFile_eq_ok.2 ⟨hslash, l, locate_of_keeps hkeeps rfl hl, by simp [hgone],
        fun _ => hkeeps _ hparent, rfl⟩
    refine ⟨(t.drop l).put l (.file content), ?_, rfl, fun m => ?_⟩
    · rw [if_pos hexists, hremove]
      exact perform_eq_ok hwrite
    · rw [node?_put _ hne, node?_drop t hne]
      split_ifs <;> rfl
  · exact absurd hn hnode

theorem replaceFile_directory (hl : t.locate path = .ok l) (hnode : t.node? l = some .directory)
    (content : Bytes) : replaceFile path content t = .error .isDirectory t := by
  have hexists : t.pathExists path = true := by
    rw [pathExists, lookup?, hl]
    exact congrArg Option.isSome hnode
  have hremove : t.removeFile path = .error .isDirectory := by
    rw [removeFile, hl]
    simp only [bind, Except.bind, hnode]
    rfl
  rw [replaceFile_eq, if_pos hexists, hremove]

end Change

end FileTree

end MissionText
