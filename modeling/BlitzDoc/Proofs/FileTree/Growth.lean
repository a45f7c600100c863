import BlitzDoc.Proofs.FileTree.Stepwise
import BlitzDoc.Proofs.FileTree.Write

/-!
# Trees that grow

Writing a file takes nothing away. `Grown place t t'` says that the second tree has all that the first
one has, and the same files but for one place: whatever could be found in the first tree is found in
the second (`folderAt_mono`, `exists?_mono`, `modified_mono`, `list_mono`). A write that succeeds leaves
such a tree (`grown_write`), and a folder that was made sure of is there (`isFolder_ensureFolder`).

The text is kept there (`keeps_write`): it can be read, and to write it once more changes nothing but
the time of the file (`Keeps.write`).
-/

namespace BlitzDoc.FileTree

/-! ## Growth -/

section
variable {t t' : FileTree} (hpaths : t.files.map (·.1) ⊆ t'.files.map (·.1))
  (hfolders : t.folders ⊆ t'.folders) {q : Path}

include hpaths hfolders in
theorem mem_namesIn_of_subset {n : String} (hn : n ∈ t.namesIn q) : n ∈ t'.namesIn q := by
  rw [mem_namesIn] at hn ⊢
  obtain ⟨target, htarget, hstep⟩ := hn
  refine ⟨target, ?_, hstep⟩
  rcases List.mem_append.1 htarget with hfile | hfolder
  · exact List.mem_append_left _ (hpaths hfile)
  · exact List.mem_append_right _ (hfolders hfolder)

include hpaths hfolders in
/-- A folder stays a folder unless a file takes its place. -/
theorem folderAt_of_subset (haddr : t'.addressing = t.addressing) (hfile : t'.fileAt? q = t.fileAt? q)
    (hq : t.folderAt q = true) : t'.folderAt q = true := by
  simp only [folderAt, Bool.and_eq_true, Bool.or_eq_true, Bool.not_eq_true', List.isEmpty_eq_false_iff,
    List.contains_iff_mem, hfile, haddr] at hq ⊢
  obtain ⟨hnone, (hnames | hmade) | houter⟩ := hq
  · obtain ⟨n, hn⟩ := List.exists_mem_of_ne_nil _ hnames
    exact ⟨hnone, .inl (.inl (List.ne_nil_of_mem (mem_namesIn_of_subset hpaths hfolders hn)))⟩
  · exact ⟨hnone, .inl (.inr (hfolders hmade))⟩
  · exact ⟨hnone, .inr houter⟩

end

/-- The second tree has all that the first has, and the same files but for the one at a place, which
was no folder. -/
structure Grown (place : Path) (t t' : FileTree) : Prop where
  addressing : t'.addressing = t.addressing
  paths : t.files.map (·.1) ⊆ t'.files.map (·.1)
  folders : t.folders ⊆ t'.folders
  fileAt? : ∀ q, q ≠ place → t'.fileAt? q = t.fileAt? q
  kept : (t.fileAt? place).isSome = true → (t'.fileAt? place).isSome = true
  free : t.folderAt place = false

namespace Grown

variable {place : Path} {t t' : FileTree} (h : Grown place t t') {p q : Path}

include h in
theorem isSome_fileAt?_mono (hq : (t.fileAt? q).isSome = true) : (t'.fileAt? q).isSome = true := by
  by_cases hplace : q = place
  · subst hplace
    exact h.kept hq
  · rw [h.fileAt? q hplace]
    exact hq

include h in
theorem ne_of_folderAt (hq : t.folderAt q = true) : q ≠ place := by
  rintro rfl
  rw [h.free] at hq
  cases hq

include h in
/-- Folders stay folders. -/
theorem folderAt_mono (hq : t.folderAt q = true) : t'.folderAt q = true :=
  folderAt_of_subset h.paths h.folders h.addressing (h.fileAt? q (h.ne_of_folderAt hq)) hq

include h in
theorem walk_mono {cs done d : List Component} (hwalk : t.walk done cs = .ok d) :
    t'.walk done cs = .ok d := by
  induction cs generalizing done with
  | nil => exact hwalk
  | cons c cs ih =>
    rw [walk] at hwalk ⊢
    split at hwalk
    · rename_i hfolder
      rw [if_pos (h.folderAt_mono hfolder)]
      exact ih hwalk
    · split at hwalk <;> cases hwalk

include h in
/-- A path that found a place finds it again, but for the place itself behind a slash. -/
theorem locate_mono (hlocate : t.locate p = .ok q) (hq : q ≠ place ∨ (t.fileAt? q).isSome = true) :
    t'.locate p = .ok q := by
  obtain rfl := Imports.locate_eq_normalize hlocate
  unfold locate at hlocate ⊢
  rw [h.addressing]
  cases haddr : t.addressing with
  | normalForm => rfl
  | stepwise =>
    simp only [haddr] at hlocate ⊢
    split at hlocate
    · cases hlocate
    · rename_i hempty
      rw [bind_eq_ok] at hlocate
      obtain ⟨d, hwalk, hslash⟩ := hlocate
      rw [if_neg hempty, bind_eq_ok]
      refine ⟨d, h.walk_mono hwalk, ?_⟩
      rcases hq with hq | hq
      · rwa [h.fileAt? _ hq]
      · simp only [hq, Bool.and_true] at hslash
        split at hslash
        · cases hslash
        · rename_i hends
          simp [hends]

include h in
theorem isFolder_mono (hp : t.isFolder p = true) : t'.isFolder p = true := by
  unfold isFolder at hp ⊢
  split at hp
  · rename_i place' hlocate
    rw [h.locate_mono hlocate (.inl (h.ne_of_folderAt hp))]
    exact h.folderAt_mono hp
  · cases hp

include h in
theorem isFile_mono (hp : t.isFile p = true) : t'.isFile p = true := by
  unfold isFile at hp ⊢
  split at hp
  · rename_i place' hlocate
    rw [h.locate_mono hlocate (.inr hp)]
    exact h.isSome_fileAt?_mono hp
  · cases hp

include h in
/-- What is there stays. -/
theorem exists?_mono (hp : t.exists? p = true) : t'.exists? p = true := by
  simp only [exists?, Bool.or_eq_true] at hp ⊢
  rcases hp with hp | hp
  · exact .inl (h.isFile_mono hp)
  · exact .inr (h.isFolder_mono hp)

include h in
/-- The time of what is there stays, unless it was moved. -/
theorem modified_mono (htime : t'.times.lookup p.normalize = t.times.lookup p.normalize) {n : Nat}
    (hp : t.modified p = .ok n) : t'.modified p = .ok n := by
  rw [modified, bind_eq_ok] at hp ⊢
  obtain ⟨q, hlocate, hp⟩ := hp
  split at hp
  · rename_i hthere
    simp only [Bool.or_eq_true] at hthere
    have hplace : q ≠ place ∨ (t.fileAt? q).isSome = true := by
      rcases hthere with hfile | hfolder
      · exact .inr hfile
      · exact .inl (h.ne_of_folderAt hfolder)
    have hthere' : ((t'.fileAt? q).isSome || t'.folderAt q) = true := by
      rw [Bool.or_eq_true]
      exact hthere.imp h.isSome_fileAt?_mono h.folderAt_mono
    refine ⟨q, h.locate_mono hlocate hplace, ?_⟩
    rw [if_pos hthere', Imports.locate_eq_normalize hlocate, htime, ← Imports.locate_eq_normalize hlocate]
    exact hp
  · cases hp

include h in
/-- What could be read elsewhere can be read still. -/
theorem read_mono (hplace : p.normalize ≠ place) {s : String} (hp : t.read p = .ok s) :
    t'.read p = .ok s := by
  unfold FileTree.read at hp ⊢
  obtain ⟨q, hlocate, hp⟩ := bind_eq_ok.1 hp
  obtain rfl := Imports.locate_eq_normalize hlocate
  refine bind_eq_ok.2 ⟨_, h.locate_mono hlocate (.inl hplace), ?_⟩
  rw [h.fileAt? _ hplace]
  split at hp
  · exact hp
  · cases hp
  · split at hp <;> cases hp

include h in
/-- The names in a folder stay. -/
theorem list_mono {names : List String} (hp : t.list p = .ok names) :
    ∃ names', t'.list p = .ok names' ∧ names ⊆ names' := by
  obtain ⟨hfolder, rfl⟩ := list_eq_ok_iff.1 hp
  refine ⟨_, list_eq_ok_iff.2 ⟨h.isFolder_mono hfolder, rfl⟩, ?_⟩
  intro n hn
  exact mem_namesIn_of_subset h.paths h.folders hn

end Grown

/-! ## Folders that are made -/

theorem MoreFolders.grown {ps : List Path} {t t' : FileTree} (h : MoreFolders ps t t') {place : Path}
    (hfree : t.folderAt place = false) : Grown place t t' where
  addressing := h.addressing
  paths := by rw [h.files]; exact List.Subset.refl _
  folders := h.folders
  fileAt? q _ := h.fileAt?_eq q
  kept hfile := by rwa [h.fileAt?_eq]
  free := hfree

/-- A folder that was made is there. -/
theorem isFolder_makeFolder {t t' : FileTree} (hstep : t.addressing = .stepwise) {p : Path}
    (h : t.makeFolder p = .ok t') : t'.isFolder p = true := by
  obtain ⟨hempty, ⟨d, hwalk⟩, hthere, htree⟩ := makeFolder_eq_ok h
  have hmore := moreFolders_makeFolder h
  simp only [Bool.or_eq_false_iff] at hthere
  obtain ⟨hfile, hfree⟩ := hthere
  have hnone : t.fileAt? p.normalize = none := by simpa using hfile
  have houter : isOuter p.normalize = false := by
    rw [Bool.eq_false_iff]
    intro houter
    simp [folderAt, hstep, houter, hnone] at hfree
  have hmade : t'.folders.contains p.normalize = true := by
    have hfolders : t'.folders = addFolder t.folders p.normalize := by
      rw [htree]
      rfl
    rw [hfolders, addFolder]
    split
    · rename_i hcase
      simpa [houter] using hcase
    · simp
  have hstep' : t'.addressing = .stepwise := hmore.addressing.trans hstep
  refine (isFolder_iff_of_stepwise hstep').2 ⟨hempty, ⟨d, (hmore.grown hfree).walk_mono hwalk⟩, ?_⟩
  simp only [folderAt, hmore.fileAt?_eq, hnone, hmade]
  simp

/-- **A folder that was made sure of is there.** -/
theorem isFolder_ensureFolder {t : FileTree} (hstep : t.addressing = .stepwise) {p : Path}
    {outer : List Path} (h : (t.ensureFolder (p :: outer)).fault = none) :
    (t.ensureFolder (p :: outer)).tree.isFolder p = true := by
  have hsettle {u : FileTree} {e : Fault} (hu : (if u.isFolder p then ({ tree := u } : Change)
      else { tree := u, fault := some e }).fault = none) : (if u.isFolder p then ({ tree := u } : Change)
      else { tree := u, fault := some e }).tree.isFolder p = true := by
    split at hu
    · rename_i hfolder
      rw [if_pos hfolder]
      exact hfolder
    · cases hu
  rw [ensureFolder] at h ⊢
  cases hp : t.makeFolder p with
  | ok t' =>
    simp only
    exact isFolder_makeFolder hstep hp
  | error e =>
    simp only [hp] at h ⊢
    cases e with
    | notFound =>
      simp only at h ⊢
      split at h
      · rename_i hfault
        rw [h] at hfault
        cases hfault
      · rename_i hfault
        rw [if_neg hfault]
        have hstep' : (t.ensureFolder outer).tree.addressing = .stepwise :=
          (moreFolders_ensureFolder t outer).addressing.trans hstep
        cases hp' : (t.ensureFolder outer).tree.makeFolder p with
        | ok t' =>
          simp only
          exact isFolder_makeFolder hstep' hp'
        | error e =>
          simp only [hp'] at h ⊢
          exact hsettle h
    | _ => exact hsettle h

/-- Where a folder is, there is nothing left to make. -/
theorem ensureFolder_of_isFolder {t : FileTree} (hstep : t.addressing = .stepwise) {p : Path}
    (h : t.isFolder p = true) (outer : List Path) : t.ensureFolder (p :: outer) = { tree := t } := by
  obtain ⟨hempty, ⟨d, hwalk⟩, hfolder⟩ := (isFolder_iff_of_stepwise hstep).1 h
  have hexists : t.makeFolder p = .error .alreadyExists := by
    unfold makeFolder
    simp only [hempty, Bool.false_eq_true, if_false, hwalk, hfolder, Bool.or_true, if_true, bind,
      Except.bind]
    split <;> rfl
  simp [ensureFolder, hexists, h]

/-! ## The way to a file -/

section
variable {t : FileTree} {p : Path}

/-- A path that can be walked has the folder that it is in. -/
theorem makeWay_of_walk (hwalk : t.addressing = .stepwise → ∃ d, t.walk [] p.steps = .ok d) :
    t.makeWay p = { tree := t } := by
  unfold makeWay
  cases hstep : t.addressing with
  | normalForm => rfl
  | stepwise =>
    cases hparent : p.parent? with
    | none => rfl
    | some folder =>
      obtain ⟨d, hd⟩ := hwalk hstep
      obtain ⟨c, more, hsteps⟩ := Path.steps_of_parent? hparent
      rw [hsteps, walk_append_eq_ok] at hd
      obtain ⟨e, hway, hrest⟩ := hd
      have hfolder := (walk_cons_eq_ok.1 hrest).1
      rw [place_of_walk hway, ← Path.normalize_eq] at hfolder
      have hthere : folder.text.isEmpty = false → t.isFolder folder = true := fun hempty =>
        (isFolder_iff_of_stepwise hstep).2 ⟨hempty, ⟨e, hway⟩, hfolder⟩
      simp only [makeFolders]
      rcases Path.ancestors_cases folder with hnone | ⟨hempty, outer, houter⟩
      · rw [hnone]
        rfl
      · rw [houter, ensureFolder_of_isFolder hstep (hthere hempty)]

end

/-! ## Writing -/

theorem put_of_lookup {α : Type} {key : Path} {value : α} {xs : List (Path × α)}
    (h : xs.lookup key = some value) : put key value xs = xs := by
  induction xs with
  | nil => cases h
  | cons x xs ih =>
    obtain ⟨k, v⟩ := x
    rw [put]
    by_cases hk : k = key
    · subst hk
      have hv : v = value := by simpa using h
      simp [hv]
    · have hne : (key == k) = false := beq_eq_false_iff_ne.2 (Ne.symm hk)
      rw [if_neg hk, ih (by simpa [List.lookup_cons, hne] using h)]

theorem putFile_of_fileAt? {t : FileTree} {p : Path} {content : Content}
    (h : t.fileAt? p.normalize = some content) : t.putFile p content = t := by
  rw [putFile, put_of_lookup h]

theorem paths_putFile (t : FileTree) (p : Path) (content : Content) :
    t.files.map (·.1) ⊆ (t.putFile p content).files.map (·.1) := by
  intro q hq
  rcases map_fst_put p.normalize content t.files with h | h
  · rw [putFile, h]
    exact hq
  · rw [putFile, h]
    exact List.mem_append_left _ hq

/-- A tree grows by folders and a file at a place where no folder is. -/
theorem Filled.grown {ps : List Path} {t u t' : FileTree} {p : Path} {content : Content}
    (h : Filled p content u t') (hmore : MoreFolders ps t u) (hfree : u.folderAt p.normalize = false) :
    Grown p.normalize t t' where
  addressing := h.entries.addressing.trans hmore.addressing
  paths := by
    rw [h.entries.files, ← hmore.files]
    exact paths_putFile u p content
  folders := by
    rw [h.entries.folders]
    exact hmore.folders
  fileAt? q hq := by rw [h.fileAt?_eq, if_neg hq, hmore.fileAt?_eq]
  kept _ := by
    rw [h.fileAt?_eq, if_pos rfl]
    rfl
  free := by
    rw [Bool.eq_false_iff]
    intro hfolder
    have hpaths : t.files.map (·.1) ⊆ u.files.map (·.1) := by
      rw [hmore.files]
      exact List.Subset.refl _
    rw [folderAt_of_subset hpaths hmore.folders hmore.addressing (hmore.fileAt?_eq _) hfolder] at hfree
    cases hfree

/-! ## What was written -/

/-- The text stands in the file at a path, and could be written there again. -/
structure Keeps (t : FileTree) (p : Path) (s : String) : Prop where
  file : t.fileAt? p.normalize = some (.text s)
  way : t.addressing = .stepwise →
    p.text.isEmpty = false ∧ p.endsInSlash = false ∧ ∃ d, t.walk [] p.steps = .ok d
  unlocked : p.normalize ∉ t.locked
  room : t.hasRoom s = true

namespace Keeps

variable {t t' : FileTree} {p : Path} {s : String}

/-- What is kept stays where files, locks and room do. -/
theorem of_sameEntries (h : Keeps t p s) (hsame : SameEntries t t') (hlocked : t'.locked = t.locked)
    (hroom : t'.room = t.room) : Keeps t' p s where
  file := by rw [hsame.fileAt?_eq, h.file]
  way hstep := by
    rw [hsame.walk_eq]
    exact h.way (hsame.addressing.symm.trans hstep)
  unlocked := by rw [hlocked]; exact h.unlocked
  room := by
    have hkept := h.room
    rwa [hasRoom, ← hroom] at hkept

variable (h : Keeps t p s)

include h in
/-- **What is kept can be read.** -/
theorem read : t.read p = .ok s := by
  have hlocate : t.locate p = .ok p.normalize := by
    unfold locate
    cases haddr : t.addressing with
    | normalForm => rfl
    | stepwise =>
      obtain ⟨hempty, hslash, d, hwalk⟩ := h.way haddr
      simp [hempty, hslash, hwalk, bind, Except.bind]
  simp [FileTree.read, hlocate, bind, Except.bind, h.file]

include h in
theorem makeWay : t.makeWay p = { tree := t } :=
  makeWay_of_walk fun hstep => (h.way hstep).2.2

include h in
/-- Another text can be written in its place, if there is room for it. -/
theorem write_other {s' : String} (hroom : t.hasRoom s' = true) :
    t.write p s' = { tree := t.fillWith p (.text s') } := by
  have haccepts : t.Accepts p :=
    ⟨by simp [folderAt, h.file], by simp [isLocked, h.file, h.unlocked], h.way⟩
  simp only [FileTree.write, h.makeWay, Option.isSome_none, Bool.false_eq_true, if_false, writeHere,
    checkWrite_eq_ok.2 haccepts, fill, hroom, if_true]

include h in
/-- **Writing the same text again** changes nothing but the time of the file. -/
theorem write : t.write p s = { tree := t.touch p.normalize } := by
  rw [h.write_other h.room]
  simp only [fillWith, h.file, Option.isSome_some, if_true, putFile_of_fileAt? h.file]

end Keeps

section
variable {t : FileTree} {p : Path} {s : String} (h : (t.write p s).fault = none)

include h in
/-- **A write that succeeds takes nothing away.** -/
theorem grown_write : Grown p.normalize t (t.write p s).tree :=
  (written_of_write h).filled.grown (moreFolders_makeWay t p) (written_of_write h).accepts.free

include h in
/-- **What was written is kept.** -/
theorem keeps_write : Keeps (t.write p s).tree p s where
  file := fileAt?_write h
  way hstep := by
    have hwritten := written_of_write h
    have hgrown := hwritten.filled.grown (.refl [] _) hwritten.accepts.free
    obtain ⟨hempty, hslash, d, hwalk⟩ := hwritten.accepts.way (hgrown.addressing.symm.trans hstep)
    exact ⟨hempty, hslash, d, hgrown.walk_mono hwalk⟩
  unlocked := (written_of_write h).filled.unlocked
  room := by
    have hwritten := written_of_write h
    have hkept := (hwritten.content_eq h).2
    rwa [hasRoom, ← hwritten.filled.room] at hkept

end

end BlitzDoc.FileTree
