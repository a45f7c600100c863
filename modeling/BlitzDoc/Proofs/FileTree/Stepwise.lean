import BlitzDoc.Proofs.FileTree.Lookup

/-!
# Paths step by step

In a tree that is followed step by step, a path leads somewhere when every folder on its way exists.
So a folder is one that can be walked to (`isFolder_iff_of_stepwise`), and a text one whose file can be
(`read_iff_of_stepwise`). From a folder on, the way leads one name at a time (`isFolder_name`), and
where a file lies there are folders above it (`folderAt_above`).
-/

namespace BlitzDoc.FileTree

/-! ## Walks -/

section
variable {t : FileTree}

theorem walk_cons_eq_ok {done cs d : List Component} {c : Component} :
    t.walk done (c :: cs) = .ok d ↔
      t.folderAt (Path.ofComponents done.reverse) = true ∧ t.walk (Path.foldStep done c) cs = .ok d := by
  rw [walk]
  cases hfolder : t.folderAt (Path.ofComponents done.reverse) with
  | true => simp
  | false =>
    simp only [Bool.false_eq_true, if_false, false_and, iff_false]
    split <;> simp

theorem walk_append_eq_ok {done xs ys d : List Component} :
    t.walk done (xs ++ ys) = .ok d ↔ ∃ e, t.walk done xs = .ok e ∧ t.walk e ys = .ok d := by
  induction xs generalizing done with
  | nil => simp [walk]
  | cons c xs ih =>
    rw [List.cons_append, walk_cons_eq_ok, ih]
    simp only [walk_cons_eq_ok]
    constructor
    · rintro ⟨hfolder, e, hxs, hys⟩
      exact ⟨e, ⟨hfolder, hxs⟩, hys⟩
    · rintro ⟨e, ⟨hfolder, hxs⟩, hys⟩
      exact ⟨hfolder, e, hxs, hys⟩

/-- A walk along a path ends at its place. -/
theorem place_of_walk {p : Path} {d : List Component} (h : t.walk [] p.steps = .ok d) : d = p.place :=
  (walk_eq h).trans (Path.foldl_steps p)

end

/-! ## Folders and files -/

/-- Whatever is there has a time. -/
theorem modified_eq_of_exists {t : FileTree} {p : Path} (h : t.exists? p = true) :
    t.modified p = .ok ((t.times.lookup p.normalize).getD 1) := by
  unfold exists? isFile isFolder at h
  cases hlocate : t.locate p with
  | error e => simp [hlocate] at h
  | ok q =>
    obtain rfl := Imports.locate_eq_normalize hlocate
    simp only [hlocate] at h
    refine bind_eq_ok.2 ⟨p.normalize, hlocate, ?_⟩
    rw [if_pos h]

theorem modified_of_exists {t : FileTree} {p : Path} (h : t.exists? p = true) :
    ∃ n, t.modified p = .ok n :=
  ⟨_, modified_eq_of_exists h⟩

theorem folderAt_of_isFolder {t : FileTree} {p : Path} (h : t.isFolder p = true) :
    t.folderAt p.normalize = true := by
  unfold isFolder at h
  split at h
  · rename_i place hlocate
    rw [← Imports.locate_eq_normalize hlocate]
    exact h
  · cases h

/-- Step by step, a folder is one that can be walked to. -/
theorem isFolder_iff_of_stepwise {t : FileTree} (hstep : t.addressing = .stepwise) {p : Path} :
    t.isFolder p = true ↔ p.text.isEmpty = false ∧ (∃ d, t.walk [] p.steps = .ok d) ∧
      t.folderAt p.normalize = true := by
  have hfile : t.folderAt p.normalize = true → (t.fileAt? p.normalize).isSome = false := by
    intro hfolder
    simp only [folderAt, Bool.and_eq_true] at hfolder
    simpa using hfolder.1
  simp only [isFolder, locate, hstep]
  cases hempty : p.text.isEmpty with
  | true => simp
  | false =>
    cases hwalk : t.walk [] p.steps with
    | error e => simp [bind, Except.bind]
    | ok d =>
      cases hfolder : t.folderAt p.normalize with
      | true => simp [bind, Except.bind, hfile hfolder, hfolder]
      | false =>
        simp only [Bool.false_eq_true, if_false, bind, Except.bind]
        split
        · rename_i place hplace
          split at hplace
          · cases hplace
          · cases hplace
            simp [hfolder]
        · simp

/-- Step by step, a text is that of a file that can be walked to. -/
theorem read_iff_of_stepwise {t : FileTree} (hstep : t.addressing = .stepwise) {p : Path} {s : String} :
    t.read p = .ok s ↔ p.text.isEmpty = false ∧ (∃ d, t.walk [] p.steps = .ok d) ∧
      p.endsInSlash = false ∧ t.fileAt? p.normalize = some (.text s) := by
  simp only [read, locate, hstep]
  cases hempty : p.text.isEmpty with
  | true => simp [bind, Except.bind]
  | false =>
    cases hwalk : t.walk [] p.steps with
    | error e => simp [bind, Except.bind]
    | ok d =>
      cases hfile : t.fileAt? p.normalize with
      | none =>
        simp only [Bool.false_eq_true, if_false, bind, Except.bind, Option.isSome_none, Bool.and_false,
          hfile]
        split <;> simp
      | some content =>
        cases hslash : p.endsInSlash with
        | true => simp [bind, Except.bind]
        | false => cases content <;> simp [bind, Except.bind, hfile]

/-- Whatever is there can be walked to. -/
theorem walk_of_exists {t : FileTree} (hstep : t.addressing = .stepwise) {p : Path}
    (h : t.exists? p = true) : ∃ d, t.walk [] p.steps = .ok d := by
  obtain ⟨q, hlocate⟩ : ∃ q, t.locate p = .ok q := by
    cases hl : t.locate p with
    | error e => simp [exists?, isFile, isFolder, hl] at h
    | ok q => exact ⟨q, rfl⟩
  simp only [locate, hstep] at hlocate
  split at hlocate
  · cases hlocate
  · obtain ⟨d, hwalk, -⟩ := bind_eq_ok.1 hlocate
    exact ⟨d, hwalk⟩

/-- The way to a joined path leads through the folder that it is seen from. -/
theorem folder_of_walk_join {t : FileTree} {base sub : Path} (hrel : sub.isAbsolute = false)
    (hsub : sub.text ≠ "") {d : List Component} (h : t.walk [] (base.join sub).steps = .ok d) :
    (∃ e, t.walk [] base.steps = .ok e) ∧ t.folderAt base.normalize = true := by
  rw [Path.steps_join hrel, walk_append_eq_ok] at h
  obtain ⟨e, hbase, hrest⟩ := h
  refine ⟨⟨e, hbase⟩, ?_⟩
  cases hs : sub.steps with
  | nil => exact absurd hs (Path.steps_ne_nil hrel hsub)
  | cons c cs =>
    rw [hs, walk_cons_eq_ok, place_of_walk hbase, ← Path.normalize_eq] at hrest
    exact hrest.1

section
variable {t : FileTree} (hstep : t.addressing = .stepwise) {base : Path}

include hstep in
/-- From a folder, any step can be taken. -/
theorem walk_piece (hbase : t.isFolder base = true) {s : String} (hslash : '/' ∉ s.toList) :
    ∃ d, t.walk [] (base / s).steps = .ok d := by
  obtain ⟨-, ⟨d, hwalk⟩, hfolder⟩ := (isFolder_iff_of_stepwise hstep).1 hbase
  have hsteps : (base / s).steps = base.steps ++ (Path.stepOf? s.toList).toList := by
    show (base.join ⟨s⟩).steps = _
    rw [Path.steps_join (Path.isAbsolute_piece hslash), Path.steps_piece hslash]
  rw [hsteps]
  cases hpiece : Path.stepOf? s.toList with
  | none => exact ⟨d, by simpa using hwalk⟩
  | some c =>
    refine ⟨Path.foldStep d c, walk_append_eq_ok.2 ⟨d, hwalk, walk_cons_eq_ok.2 ⟨?_, rfl⟩⟩⟩
    rw [place_of_walk hwalk, ← Path.normalize_eq]
    exact hfolder

include hstep in
/-- A folder in a folder. -/
theorem isFolder_name (hbase : t.isFolder base = true) {s : String} (hs : (Component.name s).IsPiece)
    (hfolder : t.folderAt (base / s).normalize = true) : t.isFolder (base / s) = true := by
  exact (isFolder_iff_of_stepwise hstep).2
    ⟨Path.isEmpty_text_name hs base, walk_piece hstep hbase hs.2, hfolder⟩

end

/-! ## Above a file -/

theorem stepBelow?_of_append {place target : Path} {c : Component} {rest : List Component}
    (h : target.components = place.components ++ c :: rest) : stepBelow? place target = some c := by
  have hprefix : place.components.isPrefixOf target.components = true := by
    rw [List.isPrefixOf_iff_prefix, h]
    exact List.prefix_append _ _
  rw [stepBelow?, if_pos hprefix, h]
  simp

section
variable {t : FileTree} {place target : Path} {c : Component} {rest : List Component}
  (hfile : (t.fileAt? target).isSome = true) (hbelow : target.components = place.components ++ c :: rest)

include hfile hbelow in
/-- A file is listed by its next step in every folder above it. -/
theorem mem_namesIn_above : c.text ∈ t.namesIn place := by
  obtain ⟨content, hcontent⟩ := Option.isSome_iff_exists.1 hfile
  have hmem : target ∈ t.files.map (·.1) := List.mem_map_of_mem (Imports.mem_of_lookup hcontent)
  exact mem_namesIn.2 ⟨target, List.mem_append_left _ hmem, c, stepBelow?_of_append hbelow, rfl⟩

include hfile hbelow in
/-- Where a file lies, there are folders above it, unless a file takes their place. -/
theorem folderAt_above (hnone : t.fileAt? place = none) : t.folderAt place = true := by
  have hnames : (t.namesIn place).isEmpty = false := by
    rw [List.isEmpty_eq_false_iff]
    exact List.ne_nil_of_mem (mem_namesIn_above hfile hbelow)
  simp [folderAt, hnone, hnames]

end

end BlitzDoc.FileTree
