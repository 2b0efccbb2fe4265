import FormScript.Build.FileTree

/-!
# What file operations change

Removing and writing a file change what is at one location and leave all folders as they are. Where a path
leads to depends on folders and on the working folder alone, so it stays the same through any number of such
changes (`ChangedAt.leadsTo_iff`), and a file that no change was made at reads as before
(`ChangedAt.read_eq`). What an operation can do when it fails is said with what it does when it succeeds:
a removal then changes nothing (`cleared_of_error`), and a write may leave a part of the content.

The output of a program is never the program itself: the paths differ in their last name
(`not_sameFile_outputPath`).
-/

namespace FormScript.Build

/-- An access that is not refused is to the entry itself. -/
theorem Entry.allow_eq_ok_iff {entry allowed : Entry} {access : Access} :
    entry.allow access = .ok allowed ↔ entry.refuses access = none ∧ allowed = entry := by
  unfold allow
  cases entry.refuses access with
  | none => simp [eq_comm]
  | some fault => simp

namespace FileTree

variable {t t' : FileTree} {l k : Location} {path other : Path}

/-! ## Entries -/

theorem get?_erase_self : (t.erase l).get? l = none := by
  simp [get?, erase, List.find?_filter]

theorem get?_erase_of_ne (h : k ≠ l) : (t.erase l).get? k = t.get? k := by
  unfold get? erase
  rw [List.find?_filter]
  congr 2
  funext entry
  by_cases hentry : entry.1 = k
  · simp [hentry, h]
  · simp [hentry]

theorem get?_insert_self (entry : Entry) : (t.insert l entry).get? l = some entry := by
  have hgone := get?_erase_self (t := t) (l := l)
  unfold get? at hgone
  rw [Option.map_eq_none_iff] at hgone
  unfold get? insert
  simp [List.find?_append, hgone]

theorem get?_insert_of_ne (h : k ≠ l) (entry : Entry) : (t.insert l entry).get? k = t.get? k := by
  rw [← get?_erase_of_ne (t := t) h]
  unfold get? insert
  simp [List.find?_append, h.symm]

/-! ## Where paths lead to -/

/-- The path leads to the location; there need not be anything. -/
def LeadsTo (t : FileTree) (path : Path) (location : Location) : Prop :=
  t.resolve path = .ok location

/-- The paths lead to one location. -/
def SameFile (t : FileTree) (path other : Path) : Prop :=
  ∃ location, t.LeadsTo path location ∧ t.LeadsTo other location

theorem LeadsTo.unique (h : t.LeadsTo path l) (h' : t.LeadsTo path k) : l = k :=
  Except.ok.inj (h.symm.trans h')

theorem toOption_resolve_eq_some_iff : (t.resolve path).toOption = some l ↔ t.LeadsTo path l := by
  unfold LeadsTo
  cases t.resolve path with
  | error fault => simp [Except.toOption]
  | ok location => simp [Except.toOption]

instance (t : FileTree) (path : Path) (location : Location) : Decidable (t.LeadsTo path location) :=
  decidable_of_iff _ toOption_resolve_eq_some_iff

instance (t : FileTree) (path other : Path) : Decidable (t.SameFile path other) :=
  decidable_of_iff ((t.resolve path).toOption ≠ none
      ∧ (t.resolve path).toOption = (t.resolve other).toOption) <| by
    simp only [SameFile, ← toOption_resolve_eq_some_iff, Option.ne_none_iff_exists]
    constructor
    · rintro ⟨⟨l, hpath⟩, hsame⟩
      exact ⟨l, hpath.symm, hsame.symm.trans hpath.symm⟩
    · rintro ⟨l, hpath, hother⟩
      exact ⟨⟨l, hpath.symm⟩, hpath.trans hother.symm⟩

/-- A path that leads somewhere is neither empty nor too long, and its names lead there one by one. -/
theorem leadsTo_iff_walk :
    t.LeadsTo path l ↔ 0 ∉ path.bytes ∧ path.bytes ≠ [] ∧ path.bytes.length ≤ maxPathBytes
      ∧ (namesOf path).foldlM t.stepTo (t.beginning path) = .ok l := by
  unfold LeadsTo resolve
  by_cases hzero : 0 ∈ path.bytes
  · simp [hzero]
  by_cases hempty : path.bytes = []
  · simp [hempty]
  by_cases hlong : maxPathBytes < path.bytes.length
  · simp [hzero, hempty, hlong, Nat.not_le.mpr hlong]
  · simp [hzero, hempty, hlong, Nat.le_of_not_lt hlong]

theorem entryAt_eq_ok_iff {entry : Entry} :
    t.entryAt path = .ok entry ↔ ∃ l, t.LeadsTo path l ∧ t.get? l = some entry := by
  unfold entryAt LeadsTo
  cases t.resolve path with
  | error fault => simp [bind, Except.bind]
  | ok location =>
    cases hentry : t.get? location with
    | none => simp [bind, Except.bind, hentry]
    | some found => simp [bind, Except.bind, pure, Except.pure, hentry]

/-- The content of the file that a path names, whether or not it may be read. -/
def content? (t : FileTree) (path : Path) : Option ByteArray :=
  match t.entryAt path with
  | .ok ⟨.file content, _⟩ => some content
  | _ => none

theorem content?_eq_some_iff {content : ByteArray} :
    t.content? path = some content
      ↔ ∃ l refuses, t.LeadsTo path l ∧ t.get? l = some ⟨.file content, refuses⟩ := by
  have hentry : t.content? path = some content
      ↔ ∃ refuses, t.entryAt path = .ok ⟨.file content, refuses⟩ := by
    unfold content?
    cases t.entryAt path with
    | error fault => simp
    | ok entry =>
      obtain ⟨node, refuses⟩ := entry
      cases node with
      | file content' => simp
      | folder => simp
  simp only [hentry, entryAt_eq_ok_iff]
  constructor
  · rintro ⟨refuses, l, hl, hfile⟩
    exact ⟨l, refuses, hl, hfile⟩
  · rintro ⟨l, refuses, hl, hfile⟩
    exact ⟨refuses, l, hl, hfile⟩

theorem openToRead_eq_ok_iff {entry : Entry} :
    t.openToRead path = .ok entry ↔ t.entryAt path = .ok entry ∧ entry.refuses .read = none := by
  unfold openToRead
  cases t.entryAt path with
  | error fault => simp [bind, Except.bind]
  | ok found =>
    simp only [bind, Except.bind, Entry.allow_eq_ok_iff, Except.ok.injEq]
    constructor
    · rintro ⟨hallowed, rfl⟩
      exact ⟨rfl, hallowed⟩
    · rintro ⟨rfl, hallowed⟩
      exact ⟨hallowed, rfl⟩

/-- A path reads the file that it leads to, if that may be read. -/
theorem read_eq_ok_iff {content : ByteArray} :
    t.read path = .ok content
      ↔ ∃ l refuses, t.LeadsTo path l ∧ t.get? l = some ⟨.file content, refuses⟩ ∧ refuses .read = none := by
  have hopened : t.read path = .ok content
      ↔ ∃ refuses, t.openToRead path = .ok ⟨.file content, refuses⟩ := by
    unfold read
    cases t.openToRead path with
    | error fault => simp [bind, Except.bind]
    | ok entry =>
      obtain ⟨node, refuses⟩ := entry
      cases node with
      | file content' => simp [bind, Except.bind, pure, Except.pure]
      | folder => simp [bind, Except.bind]
  simp only [hopened, openToRead_eq_ok_iff, entryAt_eq_ok_iff]
  constructor
  · rintro ⟨refuses, ⟨l, hl, hfile⟩, hallowed⟩
    exact ⟨l, refuses, hl, hfile, hallowed⟩
  · rintro ⟨l, refuses, hl, hfile, hallowed⟩
    exact ⟨refuses, ⟨l, hl, hfile⟩, hallowed⟩

/-- What a path names is a file if it has a content. -/
theorem kindOf_eq_file_iff : t.kindOf path = .ok .file ↔ ∃ content, t.content? path = some content := by
  unfold kindOf content?
  cases t.entryAt path with
  | error fault => simp [bind, Except.bind]
  | ok entry =>
    obtain ⟨node, refuses⟩ := entry
    cases node with
    | file content => simp [bind, Except.bind, pure, Except.pure]
    | folder => simp [bind, Except.bind, pure, Except.pure]

/-- What can be read is a file that can be opened. -/
theorem readable_iff :
    (∃ content, t.read path = .ok content)
      ↔ t.kindOf path = .ok .file ∧ ∃ entry, t.openToRead path = .ok entry := by
  unfold read kindOf
  simp only [openToRead_eq_ok_iff]
  unfold openToRead
  cases t.entryAt path with
  | error fault => simp [bind, Except.bind]
  | ok entry =>
    obtain ⟨node, refuses⟩ := entry
    cases hallowed : refuses .read with
    | some fault => simp [bind, Except.bind, Entry.allow, hallowed]
    | none => cases node <;> simp [bind, Except.bind, pure, Except.pure, Entry.allow, hallowed]

/-- Paths that lead to one location name the same. -/
theorem SameFile.entryAt_eq (h : t.SameFile path other) : t.entryAt path = t.entryAt other := by
  obtain ⟨location, hpath, hother⟩ := h
  unfold entryAt
  rw [show t.resolve path = .ok location from hpath, show t.resolve other = .ok location from hother]

theorem SameFile.content?_eq (h : t.SameFile path other) : t.content? path = t.content? other := by
  unfold content?
  rw [h.entryAt_eq]

/-- A step of a path needs a folder to start from that may be searched, and asks the tree for nothing else. -/
theorem stepTo_eq_ok_iff {name : Name} {next : Location} :
    t.stepTo l name = .ok next
      ↔ ∃ refuses, t.get? l = some ⟨.folder, refuses⟩
        ∧ if name.bytes = [] then next = l else refuses .search = none ∧ descend l name = .ok next := by
  unfold stepTo
  cases t.get? l with
  | none => simp
  | some entry =>
    obtain ⟨node, refuses⟩ := entry
    cases node with
    | file content => simp
    | folder =>
      by_cases hname : name.bytes = []
      · simp [hname, eq_comm]
      · simp only [if_neg hname, bind, Except.bind, Option.some.injEq, Entry.mk.injEq, true_and]
        cases hallowed : refuses .search <;> simp [Entry.allow, hallowed]

/-! ## Changes -/

/-- The trees have the same folders, and the same files but at the locations of a set. -/
structure ChangedAt (touched : Location → Prop) (t t' : FileTree) : Prop where
  home : t'.home = t.home
  folders : ∀ l refuses, t'.get? l = some ⟨.folder, refuses⟩ ↔ t.get? l = some ⟨.folder, refuses⟩
  elsewhere : ∀ l, ¬ touched l → t'.get? l = t.get? l

namespace ChangedAt

variable {touched touched' : Location → Prop} {t'' : FileTree}

theorem refl (touched : Location → Prop) (t : FileTree) : ChangedAt touched t t :=
  ⟨rfl, fun _ _ => Iff.rfl, fun _ _ => rfl⟩

theorem mono (h : ChangedAt touched t t') (himp : ∀ l, touched l → touched' l) :
    ChangedAt touched' t t' :=
  ⟨h.home, h.folders, fun l hl => h.elsewhere l fun ht => hl (himp l ht)⟩

theorem trans (h : ChangedAt touched t t') (h' : ChangedAt touched t' t'') :
    ChangedAt touched t t'' where
  home := h'.home.trans h.home
  folders l refuses := (h'.folders l refuses).trans (h.folders l refuses)
  elsewhere l hl := (h'.elsewhere l hl).trans (h.elsewhere l hl)

theorem symm (h : ChangedAt touched t t') : ChangedAt touched t' t :=
  ⟨h.home.symm, fun l refuses => (h.folders l refuses).symm, fun l hl => (h.elsewhere l hl).symm⟩

theorem stepTo_ok (h : ChangedAt touched t t') {name : Name} {next : Location}
    (hstep : t.stepTo l name = .ok next) : t'.stepTo l name = .ok next := by
  obtain ⟨refuses, hfolder, hnext⟩ := stepTo_eq_ok_iff.mp hstep
  exact stepTo_eq_ok_iff.mpr ⟨refuses, (h.folders l refuses).mpr hfolder, hnext⟩

theorem walk_ok (h : ChangedAt touched t t') {names : List Name} {start : Location}
    (hwalk : names.foldlM t.stepTo start = .ok l) : names.foldlM t'.stepTo start = .ok l := by
  induction names generalizing start with
  | nil => exact hwalk
  | cons name names ih =>
    rw [List.foldlM_cons] at hwalk ⊢
    cases hstep : t.stepTo start name with
    | error fault =>
      rw [hstep] at hwalk
      cases hwalk
    | ok next =>
      rw [hstep] at hwalk
      rw [h.stepTo_ok hstep]
      exact ih hwalk

theorem leadsTo (h : ChangedAt touched t t') (hpath : t.LeadsTo path l) : t'.LeadsTo path l := by
  obtain ⟨hzero, hempty, hlength, hwalk⟩ := leadsTo_iff_walk.mp hpath
  have hbeginning : t'.beginning path = t.beginning path := by
    unfold beginning
    rw [h.home]
  refine leadsTo_iff_walk.mpr ⟨hzero, hempty, hlength, ?_⟩
  rw [hbeginning]
  exact h.walk_ok hwalk

/-- **Paths lead to where they led before.** -/
theorem leadsTo_iff (h : ChangedAt touched t t') : t'.LeadsTo path l ↔ t.LeadsTo path l :=
  ⟨h.symm.leadsTo, h.leadsTo⟩

theorem sameFile_iff (h : ChangedAt touched t t') : t'.SameFile path other ↔ t.SameFile path other := by
  simp only [SameFile, h.leadsTo_iff]

/-- A file away from the changes reads as before. -/
theorem read_eq (h : ChangedAt touched t t') {content : ByteArray} (hread : t.read path = .ok content)
    (haway : ∀ l, t.LeadsTo path l → ¬ touched l) : t'.read path = .ok content := by
  obtain ⟨l, refuses, hl, hfile, hallowed⟩ := read_eq_ok_iff.mp hread
  refine read_eq_ok_iff.mpr ⟨l, refuses, h.leadsTo hl, ?_, hallowed⟩
  rw [h.elsewhere l (haway l hl)]
  exact hfile

/-- A file away from the changes has the content that it had before. -/
theorem content?_eq (h : ChangedAt touched t t') {content : ByteArray}
    (hcontent : t.content? path = some content) (haway : ∀ l, t.LeadsTo path l → ¬ touched l) :
    t'.content? path = some content := by
  obtain ⟨l, refuses, hl, hfile⟩ := content?_eq_some_iff.mp hcontent
  refine content?_eq_some_iff.mpr ⟨l, refuses, h.leadsTo hl, ?_⟩
  rw [h.elsewhere l (haway l hl)]
  exact hfile

end ChangedAt

/-! ## Removing and writing -/

theorem changedAt_erase {content : ByteArray} {refuses : Access → Option FileFault}
    (h : t.get? l = some ⟨.file content, refuses⟩) : ChangedAt (· = l) t (t.erase l) where
  home := rfl
  folders k refuses' := by
    by_cases hk : k = l
    · subst hk
      simp [get?_erase_self, h]
    · rw [get?_erase_of_ne hk]
  elsewhere _ hk := get?_erase_of_ne hk

theorem changedAt_insert (h : ∀ refuses, t.get? l ≠ some ⟨.folder, refuses⟩) (content : ByteArray)
    (refuses : Access → Option FileFault) :
    ChangedAt (· = l) t (t.insert l ⟨.file content, refuses⟩) where
  home := rfl
  folders k refuses' := by
    by_cases hk : k = l
    · subst hk
      simp [get?_insert_self, h refuses']
    · rw [get?_insert_of_ne hk]
  elsewhere _ hk := get?_insert_of_ne hk _

/-- A removal that succeeds takes away the file that the path leads to. -/
theorem remove_eq_ok (h : t.remove path = .ok t') :
    ∃ l content refuses, t.LeadsTo path l ∧ t.get? l = some ⟨.file content, refuses⟩ ∧ t' = t.erase l := by
  unfold remove at h
  cases hplace : t.resolve path with
  | error fault =>
    rw [hplace] at h
    cases h
  | ok location =>
    rw [hplace] at h
    simp only [bind, Except.bind] at h
    cases hentry : t.get? location with
    | none =>
      rw [hentry] at h
      cases h
    | some entry =>
      rw [hentry] at h
      obtain ⟨node, refuses⟩ := entry
      cases node with
      | folder => cases h
      | file content =>
        refine ⟨location, content, refuses, hplace, hentry, ?_⟩
        cases hallow : Entry.allow ⟨.file content, refuses⟩ .remove with
        | error fault =>
          simp only [hallow] at h
          cases h
        | ok entry =>
          simp only [hallow] at h
          cases h
          rfl

/-- The tree after an attempt to remove a file. -/
def cleared (t : FileTree) (path : Path) : FileTree :=
  match t.remove path with
  | .ok after => after
  | .error _ => t

theorem cleared_of_error {fault : FileFault} (h : t.remove path = .error fault) : t.cleared path = t := by
  unfold cleared
  rw [h]

/-- Removing changes nothing but the file that the path leads to. -/
theorem changedAt_cleared (t : FileTree) (path : Path) : ChangedAt (t.LeadsTo path) t (t.cleared path) := by
  unfold cleared
  cases hremove : t.remove path with
  | error fault => exact .refl _ t
  | ok after =>
    obtain ⟨l, content, refuses, hleads, hfile, rfl⟩ := remove_eq_ok hremove
    apply (changedAt_erase hfile).mono
    rintro _ rfl
    exact hleads

/-- **There is a file where one was to be removed exactly if there was one and the removal failed.** -/
theorem kindOf_cleared_eq_file_iff :
    (t.cleared path).kindOf path = .ok .file
      ↔ t.kindOf path = .ok .file ∧ ∃ fault, t.remove path = .error fault := by
  cases hremove : t.remove path with
  | error fault => simp [cleared_of_error hremove]
  | ok after =>
    obtain ⟨l, content, refuses, hleads, hfile, rfl⟩ := remove_eq_ok hremove
    have hgone : ∀ content', (t.erase l).content? path ≠ some content' := by
      intro content' hcontent
      obtain ⟨k, refuses', hk, hfile'⟩ := content?_eq_some_iff.mp hcontent
      obtain rfl := hleads.unique ((changedAt_erase hfile).leadsTo_iff.mp hk)
      rw [get?_erase_self] at hfile'
      cases hfile'
    simp [cleared, hremove, kindOf_eq_file_iff, hgone]

/-- Where a file can be written there is no folder. -/
theorem not_folder_of_openToWrite {refuses : Access → Option FileFault}
    (h : t.openToWrite l = .ok refuses) (refuses' : Access → Option FileFault) :
    t.get? l ≠ some ⟨.folder, refuses'⟩ := by
  intro hfolder
  unfold openToWrite at h
  rw [hfolder] at h
  cases h

/-- A file that is filled holds the content, or a part of it if that is too large. -/
theorem fill_eq (t : FileTree) (l : Location) (refuses : Access → Option FileFault) (content : ByteArray) :
    ∃ stored, (t.fill l refuses content).2 = t.insert l ⟨.file stored, refuses⟩
      ∧ ((t.fill l refuses content).1 = .ok () → stored = content) := by
  unfold fill
  cases t.maxFileBytes with
  | none => exact ⟨content, rfl, fun _ => rfl⟩
  | some limit =>
    dsimp only
    split
    · exact ⟨content, rfl, fun _ => rfl⟩
    · refine ⟨content.extract 0 limit, rfl, ?_⟩
      intro hok
      cases hok

/-- Writing changes nothing but the file that the path leads to, and if it succeeds, the file has that
    content. -/
theorem changedAt_write (path : Path) (content : ByteArray) :
    ChangedAt (t.LeadsTo path) t (t.write path content).2
      ∧ ((t.write path content).1 = .ok () → (t.write path content).2.content? path = some content) := by
  unfold write
  cases hplace : t.resolve path with
  | error fault => exact ⟨.refl _ t, fun hok => by cases hok⟩
  | ok location =>
    have hleads : t.LeadsTo path location := hplace
    dsimp only
    cases hopen : t.openToWrite location with
    | error fault => exact ⟨.refl _ t, fun hok => by cases hok⟩
    | ok refuses =>
      obtain ⟨stored, htree, hstored⟩ := fill_eq t location refuses content
      have hchanged : ChangedAt (t.LeadsTo path) t (t.insert location ⟨.file stored, refuses⟩) := by
        apply (changedAt_insert (not_folder_of_openToWrite hopen) stored refuses).mono
        rintro _ rfl
        exact hleads
      dsimp only
      rw [htree]
      refine ⟨hchanged, fun hok => ?_⟩
      rw [hstored hok] at hchanged ⊢
      exact content?_eq_some_iff.mpr ⟨location, refuses, hchanged.leadsTo hleads, get?_insert_self _⟩

/-! ## Programs and their outputs -/

theorem splitOn_cons (c : UInt8) (cs : List UInt8) :
    (c :: cs).splitOn slash = if c == slash then [] :: cs.splitOn slash
      else (cs.splitOn slash).modifyHead (List.cons c) :=
  List.splitOnP_cons_eq_if_modifyHead c cs

/-- Paths with the same beginning differ in their last name only. -/
theorem splitOn_append (cs : List UInt8) :
    ∃ folders last, ∀ suffix, slash ∉ suffix →
      (cs ++ suffix).splitOn slash = folders ++ [last ++ suffix] := by
  induction cs with
  | nil => exact ⟨[], [], fun suffix hsuffix => List.splitOn_eq_singleton hsuffix⟩
  | cons c cs ih =>
    obtain ⟨folders, last, hsplit⟩ := ih
    by_cases hc : c = slash
    · refine ⟨[] :: folders, last, fun suffix hsuffix => ?_⟩
      rw [List.cons_append, splitOn_cons, hsplit suffix hsuffix, if_pos (by simp [hc])]
      rfl
    · -- the byte goes to the first name, which may be the last one
      cases folders with
      | nil =>
        refine ⟨[], c :: last, fun suffix hsuffix => ?_⟩
        rw [List.cons_append, splitOn_cons, hsplit suffix hsuffix, if_neg (by simp [hc])]
        rfl
      | cons folder folders =>
        refine ⟨(c :: folder) :: folders, last, fun suffix hsuffix => ?_⟩
        rw [List.cons_append, splitOn_cons, hsplit suffix hsuffix, if_neg (by simp [hc])]
        rfl

theorem namesOf_append (stem : List UInt8) :
    ∃ folders last, ∀ (path : Path) suffix, path.bytes = stem ++ suffix → slash ∉ suffix →
      namesOf path = folders ++ [⟨last ++ suffix⟩] := by
  obtain ⟨folders, last, hsplit⟩ := splitOn_append stem
  refine ⟨folders.map ByteString.mk, last, ?_⟩
  intro path suffix hpath hsuffix
  unfold namesOf
  rw [hpath, hsplit suffix hsuffix, List.map_append]
  rfl

/-- A name leads into a folder, or it is one of the short names that stay or go up. -/
theorem last_of_stepTo {folder : Location} {name : Name} (h : t.stepTo folder name = .ok l) :
    l = folder ++ [name] ∨ l.length ≤ folder.length ∧ name.bytes.length < 3 := by
  obtain ⟨refuses, _, hnext⟩ := stepTo_eq_ok_iff.mp h
  split at hnext
  · rename_i hname
    subst hnext
    exact .inr ⟨Nat.le_refl _, by simp [hname]⟩
  · obtain ⟨_, hdescend⟩ := hnext
    unfold descend at hdescend
    split at hdescend
    · rename_i hname
      cases hdescend
      exact .inr ⟨Nat.le_refl _, by simp [hname]⟩
    · split at hdescend
      · rename_i hname
        cases hdescend
        exact .inr ⟨by simp, by simp [hname]⟩
      · split at hdescend
        · cases hdescend
        · cases hdescend
          exact .inl rfl

/-- The last name of a path that leads to a location is the last one there, or the path ends by staying or
    going up. -/
theorem LeadsTo.last (h : t.LeadsTo path l) {folders : List Name} {last : Name}
    (hnames : namesOf path = folders ++ [last]) :
    ∃ folder, folders.foldlM t.stepTo (t.beginning path) = .ok folder
      ∧ (l = folder ++ [last] ∨ l.length ≤ folder.length ∧ last.bytes.length < 3) := by
  obtain ⟨_, _, _, hwalk⟩ := leadsTo_iff_walk.mp h
  rw [hnames, List.foldlM_append] at hwalk
  cases hplace : folders.foldlM t.stepTo (t.beginning path) with
  | error fault =>
    rw [hplace] at hwalk
    cases hwalk
  | ok folder =>
    have hstep : t.stepTo folder last = .ok l := by
      rw [hplace] at hwalk
      rw [← bind_pure (t.stepTo folder last)]
      exact hwalk
    exact ⟨folder, rfl, last_of_stepTo hstep⟩

/-- What is taken off a path is the suffix of programs, or nothing. -/
theorem bytes_eq_stem_append (path : Path) :
    ∃ suffix, path.bytes = (stem path).bytes ++ suffix
      ∧ (suffix = [] ∨ suffix = (ByteString.ofText sourceSuffix).bytes) := by
  unfold stem
  cases htext : path.text? with
  | none => exact ⟨[], (List.append_nil _).symm, .inl rfl⟩
  | some text =>
    obtain rfl := ByteString.text?_eq_some_iff.mp htext
    dsimp only
    unfold beforeSuffix?
    by_cases hsource : sourceSuffix.toList.isSuffixOf text.toList = true
    · obtain ⟨cs, hcs⟩ := List.isSuffixOf_iff_suffix.mp hsource
      have hwhole : text = String.ofList cs ++ sourceSuffix := by
        rw [← String.ofList_toList (s := text), ← hcs, String.ofList_append, String.ofList_toList]
      have hbefore : text.toList.take (text.toList.length - sourceSuffix.toList.length) = cs := by
        rw [← hcs]
        simp
      refine ⟨(ByteString.ofText sourceSuffix).bytes, ?_, .inr rfl⟩
      rw [if_pos hsource, hbefore, Option.getD_some]
      conv => lhs; rw [hwhole, ByteString.ofText_append]
      rfl
    · rw [if_neg hsource, Option.getD_none, String.ofList_toList]
      exact ⟨[], (List.append_nil _).symm, .inl rfl⟩

theorem outputPath_bytes (path : Path) :
    (outputPath path).bytes = (stem path).bytes ++ (ByteString.ofText targetSuffix).bytes := rfl

/-- Where there is no suffix to take off, one is put on. -/
theorem outputPath_of_not_suffix (h : ¬ (ByteString.ofText sourceSuffix).bytes <:+ path.bytes) :
    outputPath path = ⟨path.bytes ++ (ByteString.ofText targetSuffix).bytes⟩ := by
  obtain ⟨suffix, hbytes, rfl | rfl⟩ := bytes_eq_stem_append path
  · rw [List.append_nil] at hbytes
    rw [hbytes]
    rfl
  · exact absurd ⟨_, hbytes.symm⟩ h

theorem beginning_outputPath (h : path.bytes ≠ []) : t.beginning (outputPath path) = t.beginning path := by
  obtain ⟨suffix, hbytes, hsuffix⟩ := bytes_eq_stem_append path
  unfold beginning
  rw [outputPath_bytes, hbytes]
  cases hstem : (stem path).bytes with
  | cons c stem => rfl
  | nil =>
    rcases hsuffix with rfl | rfl
    · rw [hstem] at hbytes
      exact absurd hbytes h
    · rfl

/-- **The output of a program is not the program**, whatever the folders are. -/
theorem not_sameFile_outputPath (t : FileTree) (path : Path) : ¬ t.SameFile path (outputPath path) := by
  rintro ⟨l, hpath, houtput⟩
  obtain ⟨suffix, hbytes, hsuffix⟩ := bytes_eq_stem_append path
  obtain ⟨folders, last, hnames⟩ := namesOf_append (stem path).bytes
  have hslash : slash ∉ suffix := by
    rcases hsuffix with rfl | rfl <;> decide +kernel
  obtain ⟨folder, hfolder, hlast⟩ := hpath.last (hnames path suffix hbytes hslash)
  obtain ⟨folder', hfolder', hlast'⟩ :=
    houtput.last (hnames (outputPath path) _ (outputPath_bytes path) (by decide +kernel))
  have hempty := (leadsTo_iff_walk.mp hpath).2.1
  rw [← beginning_outputPath hempty, hfolder'] at hfolder
  cases hfolder
  -- the output ends in a name of its own, and the last names are of different lengths
  have hown : l = folder ++ [⟨last ++ (ByteString.ofText targetSuffix).bytes⟩] := by
    rcases hlast' with hown | ⟨_, hshort⟩
    · exact hown
    · have hthree : (ByteString.ofText targetSuffix).bytes.length = 3 := by decide +kernel
      rw [List.length_append, hthree] at hshort
      omega
  rcases hlast with hsame | ⟨hlength, _⟩
  · rw [hown, List.append_cancel_left_eq, List.cons.injEq, ByteString.mk.injEq] at hsame
    have hsame : (ByteString.ofText targetSuffix).bytes = suffix := List.append_cancel_left hsame.1
    rcases hsuffix with rfl | rfl <;> revert hsame <;> decide +kernel
  · rw [hown, List.length_append] at hlength
    exact Nat.not_succ_le_self _ hlength

/-! ## Paths that stay -/

/-- The beginning of a path that stays where it is `n` times. -/
def idle : Nat → List UInt8
  | 0 => []
  | n + 1 => dot :: slash :: idle n

theorem idle_length (n : Nat) : (idle n).length = 2 * n := by
  induction n with
  | zero => rfl
  | succ n ih =>
    rw [idle, List.length_cons, List.length_cons, ih]
    omega

theorem zero_not_mem_idle (n : Nat) : 0 ∉ idle n := by
  induction n with
  | zero => exact List.not_mem_nil
  | succ n ih =>
    rw [idle, List.mem_cons, List.mem_cons]
    rintro (hdot | hslash | hmem)
    · exact absurd hdot (by decide)
    · exact absurd hslash (by decide)
    · exact ih hmem

theorem namesOf_idle (n : Nat) (bs : List UInt8) :
    namesOf ⟨idle n ++ bs⟩ = List.replicate n ⟨[dot]⟩ ++ namesOf ⟨bs⟩ := by
  induction n with
  | zero => rfl
  | succ n ih =>
    unfold namesOf at ih ⊢
    rw [idle, List.cons_append, List.cons_append, splitOn_cons, if_neg (by decide), splitOn_cons,
      if_pos (by decide), List.modifyHead_cons, List.map_cons, ih]
    rfl

/-- A path that stays in a folder for a while leads to where the rest of it does. -/
theorem walk_idle {folder : Location} (h : t.stepTo folder ⟨[dot]⟩ = .ok folder) (n : Nat) (bs : List UInt8) :
    (namesOf ⟨idle n ++ bs⟩).foldlM t.stepTo folder = (namesOf ⟨bs⟩).foldlM t.stepTo folder := by
  rw [namesOf_idle]
  induction n with
  | zero => rfl
  | succ n ih =>
    rw [List.replicate_succ, List.cons_append, List.foldlM_cons, h]
    exact ih

/-- Staying in the working folder does not change where a path leads to, so long as it is not too long. -/
theorem LeadsTo.idle {bs : List UInt8} (h : t.LeadsTo ⟨bs⟩ l) (hrelative : bs.head? ≠ some slash)
    (hstay : t.stepTo t.home ⟨[dot]⟩ = .ok t.home) {n : Nat} (hlength : 2 * n + bs.length ≤ maxPathBytes) :
    t.LeadsTo ⟨FileTree.idle n ++ bs⟩ l := by
  obtain ⟨hzero, hempty, _, hwalk⟩ := leadsTo_iff_walk.mp h
  have hhome : t.beginning ⟨bs⟩ = t.home := if_neg hrelative
  have hhome' : t.beginning ⟨FileTree.idle n ++ bs⟩ = t.home := by
    cases n with
    | zero => exact hhome
    | succ n => exact if_neg (show some dot ≠ some slash by decide)
  refine leadsTo_iff_walk.mpr ⟨?_, ?_, ?_, ?_⟩
  · rw [List.mem_append]
    rintro (hmem | hmem)
    · exact zero_not_mem_idle n hmem
    · exact hzero hmem
  · exact List.append_ne_nil_of_right_ne_nil _ hempty
  · rw [List.length_append, idle_length]
    exact hlength
  · rw [hhome', walk_idle hstay, ← hhome]
    exact hwalk

/-- At a path that is too long nothing can be removed. -/
theorem remove_of_long (hzero : 0 ∉ path.bytes) (hlong : maxPathBytes < path.bytes.length) :
    t.remove path = .error .nameTooLong := by
  have hempty : ¬ path.bytes.isEmpty = true := by
    intro hempty
    rw [List.isEmpty_iff.mp hempty] at hlong
    exact absurd hlong (by decide)
  unfold remove resolve
  rw [if_neg (by simpa using hzero), if_neg hempty, if_pos hlong]
  rfl

end FileTree

end FormScript.Build
