import BlitzDoc.Proofs.FileTree.Growth

/-!
# A tree without a file

`withoutFile` takes a file out of a tree. Where the file was all that stood at its place, nothing else
changes: the two trees are the same but for that file (`sameBut_withoutFile`). A text can be written there
in the one as in the other, since the folder of a file that can be walked to is there already, but for
locks: those of the file count while it is there, and those of the folder when it is not
(`write_withoutFile`).
-/

namespace BlitzDoc.FileTree

/-- The folders above a place. -/
def above (place : Path) : List Path :=
  (List.range place.components.length).map fun n => Path.ofComponents (place.components.take n)

/-- The tree without the file at a place. A tree that is followed step by step keeps the folders above
it. -/
def withoutFile (t : FileTree) (place : Path) : FileTree :=
  { t with
    files := t.files.filter fun f => f.1 != place
    folders :=
      match t.addressing with
      | .normalForm => t.folders
      | .stepwise => t.folders ++ above place }

/-! ## What stays -/

section
variable (t : FileTree) (p : Path)

theorem mem_above {q : Path} (h : q ∈ above p.normalize) :
    q.components <+: p.normalize.components := by
  obtain ⟨n, -, rfl⟩ := List.mem_map.1 h
  have htake := List.take_prefix n p.normalize.components
  have hwritable : Path.Writable (p.normalize.components.take n) := by
    refine Path.writable_of_prefix htake ?_
    rw [Path.components_normalize]
    exact Path.writable_place p
  rw [Path.components_ofComponents hwritable]
  exact htake

theorem mem_folders_withoutFile {q : Path} (hq : ¬q.components <+: p.normalize.components) :
    q ∈ (t.withoutFile p.normalize).folders ↔ q ∈ t.folders := by
  unfold withoutFile
  cases t.addressing with
  | normalForm => rfl
  | stepwise =>
    simp only [List.mem_append, or_iff_left_iff_imp]
    exact fun h => absurd (mem_above p h) hq

theorem lookup_filter {α : Type} (keep : Path → Bool) (xs : List (Path × α)) (q : Path) :
    (xs.filter fun x => keep x.1).lookup q = if keep q then xs.lookup q else none := by
  induction xs with
  | nil => simp
  | cons x xs ih =>
    obtain ⟨k, v⟩ := x
    rw [List.filter_cons]
    by_cases hq : q = k
    · subst hq
      cases hkeep : keep q <;> simp [ih, hkeep]
    · have hne : (q == k) = false := beq_eq_false_iff_ne.2 hq
      cases hkeep : keep k <;> simp [ih, hne, List.lookup_cons]

theorem fileAt?_withoutFile (q : Path) :
    (t.withoutFile p.normalize).fileAt? q = if q = p.normalize then none else t.fileAt? q := by
  refine (lookup_filter (· != p.normalize) t.files q).trans ?_
  by_cases hq : q = p.normalize
  · simp [hq]
  · simp [hq, fileAt?]

theorem namesIn_withoutFile {q : Path} (hq : ¬q.components <+: p.normalize.components) :
    (t.withoutFile p.normalize).namesIn q = t.namesIn q := by
  have hfiles : ((t.withoutFile p.normalize).files.map (·.1)).filterMap (stepBelow? q) =
      (t.files.map (·.1)).filterMap (stepBelow? q) := by
    simp only [withoutFile, List.filterMap_map, List.filterMap_filter]
    refine List.filterMap_congr fun f _ => ?_
    by_cases hf : f.1 = p.normalize
    · simp [hf, stepBelow?_eq_none hq]
    · simp [hf]
  have hfolders : (t.withoutFile p.normalize).folders.filterMap (stepBelow? q) =
      t.folders.filterMap (stepBelow? q) := by
    unfold withoutFile
    cases t.addressing with
    | normalForm => rfl
    | stepwise =>
      have habove : (above p.normalize).filterMap (stepBelow? q) = [] := by
        rw [List.filterMap_eq_nil_iff]
        exact fun a ha => stepBelow?_eq_none fun hpre => hq (hpre.trans (mem_above p ha))
      rw [List.filterMap_append, habove, List.append_nil]
  simp only [namesIn, List.filterMap_append, hfiles, hfolders]

theorem folderAt_withoutFile {q : Path} (hq : ¬q.components <+: p.normalize.components) :
    (t.withoutFile p.normalize).folderAt q = t.folderAt q := by
  have hne : q ≠ p.normalize := by
    rintro rfl
    exact hq List.prefix_rfl
  have hmade : (t.withoutFile p.normalize).folders.contains q = t.folders.contains q := by
    rw [Bool.eq_iff_iff, List.contains_iff_mem, List.contains_iff_mem]
    exact mem_folders_withoutFile t p hq
  unfold folderAt
  rw [fileAt?_withoutFile, if_neg hne, namesIn_withoutFile t p hq, hmade]
  rfl

end

/-! ## The file alone -/

section
variable {t : FileTree} {p : Path}

/-- A file that is there has a place of its own, and step by step it can be walked to. -/
theorem of_isFile (h : t.isFile p = true) :
    (t.fileAt? p.normalize).isSome = true ∧ (t.addressing = .stepwise →
      p.text.isEmpty = false ∧ p.endsInSlash = false ∧ ∃ d, t.walk [] p.steps = .ok d) := by
  unfold isFile at h
  cases hlocate : t.locate p with
  | error e => simp [hlocate] at h
  | ok place =>
    obtain rfl := Imports.locate_eq_normalize hlocate
    rw [hlocate] at h
    refine ⟨h, fun hstep => ?_⟩
    simp only [locate, hstep] at hlocate
    split at hlocate
    · cases hlocate
    · rename_i hempty
      obtain ⟨d, hwalk, hslash⟩ := bind_eq_ok.1 hlocate
      split at hslash
      · cases hslash
      · rename_i hends
        simp only [h, Bool.and_true, Bool.not_eq_true] at hends
        exact ⟨by simpa using hempty, hends, d, hwalk⟩

theorem folderAt_eq_false (h : (t.fileAt? p).isSome = true) : t.folderAt p = false := by
  simp [folderAt, Option.isSome_iff_ne_none.1 h]

variable (hfile : t.isFile p = true) (hleaf : (t.withoutFile p.normalize).folderAt p.normalize = false)

include hfile hleaf in
/-- Step by step, all folders stay. -/
theorem folderAt_withoutFile_of_stepwise (hstep : t.addressing = .stepwise) {l : List Component}
    (hl : Path.Writable l) :
    (t.withoutFile p.normalize).folderAt (Path.ofComponents l) = t.folderAt (Path.ofComponents l) := by
  have hthere := (of_isFile hfile).1
  have hcomponents := Path.components_ofComponents hl
  by_cases hprefix : l <+: p.normalize.components
  · obtain ⟨more, hmore⟩ := hprefix
    cases more with
    | nil =>
      -- the place of the file
      have hplace : Path.ofComponents l = p.normalize := by
        rw [List.append_nil, Path.components_normalize] at hmore
        rw [hmore, Path.normalize_eq]
      rw [hplace, hleaf, folderAt_eq_false hthere]
    | cons c more =>
      -- a folder above it, unless a file takes its place
      have hne : Path.ofComponents l ≠ p.normalize := by
        intro heq
        rw [← heq, hcomponents] at hmore
        simp at hmore
      have hmade : Path.ofComponents l ∈ (t.withoutFile p.normalize).folders := by
        simp only [withoutFile, hstep]
        refine List.mem_append_right _ (List.mem_map.2 ⟨l.length, ?_, ?_⟩)
        · rw [List.mem_range, ← hmore, List.length_append, List.length_cons]
          omega
        · rw [← hmore, List.take_left]
      cases hother : t.fileAt? (Path.ofComponents l) with
      | some content => simp [folderAt, fileAt?_withoutFile, hne, hother]
      | none =>
        have hbelow : p.normalize.components = (Path.ofComponents l).components ++ c :: more := by
          rw [hcomponents, hmore]
        rw [folderAt_above hthere hbelow hother]
        simp [folderAt, fileAt?_withoutFile, hne, hother, hmade]
  · exact folderAt_withoutFile t p (by rwa [hcomponents])

include hfile hleaf in
/-- **A tree without a file is the same but for that file.** -/
theorem sameBut_withoutFile : SameBut p.normalize t (t.withoutFile p.normalize) where
  locate q hq := by
    have haddr : (t.withoutFile p.normalize).addressing = t.addressing := rfl
    refine toOption_locate haddr (fun hstep l hl => ?_) ?_
    · exact folderAt_withoutFile_of_stepwise hfile hleaf hstep hl
    · rw [fileAt?_withoutFile, if_neg hq]
  fileAt? q hq := by rw [fileAt?_withoutFile, if_neg hq]
  namesIn q hq := namesIn_withoutFile t p hq
  folderAt q hq := folderAt_withoutFile t p hq
  times _ _ := rfl

end

/-! ## Writing it again -/

section
variable {t : FileTree} {p : Path}

/-- Where no folder is and the way can be walked, only a lock keeps a text out. -/
theorem write_of_walk (hfree : t.folderAt p.normalize = false)
    (hway : t.addressing = .stepwise →
      p.text.isEmpty = false ∧ p.endsInSlash = false ∧ ∃ d, t.walk [] p.steps = .ok d) (s : String) :
    t.write p s =
      if t.isLocked p.normalize then { tree := t, fault := some .denied } else t.fill p s := by
  have hmade := makeWay_of_walk fun hstep => (hway hstep).2.2
  have hwrite : t.write p s = t.writeHere p s := by simp [write, hmade]
  rw [hwrite, writeHere]
  cases hlocked : t.isLocked p.normalize with
  | false => simp [checkWrite_eq_ok.2 ⟨hfree, hlocked, hway⟩]
  | true =>
    have hdenied : t.checkWrite p = .error .denied := by
      unfold checkWrite
      cases hstep : t.addressing with
      | normalForm => simp [hfree, hlocked]
      | stepwise =>
        obtain ⟨hempty, hslash, d, hwalk⟩ := hway hstep
        simp [hempty, hslash, hwalk, hfree, hlocked, bind, Except.bind]
    simp [hdenied]

theorem fault_fill (t : FileTree) (p : Path) (s : String) :
    (t.fill p s).fault = if t.hasRoom s then none else some .noSpace := by
  unfold fill
  split <;> rfl

variable (hfile : t.isFile p = true) (hleaf : (t.withoutFile p.normalize).folderAt p.normalize = false)

include hfile hleaf in
/-- Step by step, the way to the file can be walked without it. -/
theorem way_withoutFile (hstep : t.addressing = .stepwise) : p.text.isEmpty = false ∧
    p.endsInSlash = false ∧ ∃ d, (t.withoutFile p.normalize).walk [] p.steps = .ok d := by
  obtain ⟨hempty, hslash, d, hwalk⟩ := (of_isFile hfile).2 hstep
  have hsame := toOption_walk_steps
    (fun l hl => folderAt_withoutFile_of_stepwise hfile hleaf hstep hl) p
  cases hwalk' : (t.withoutFile p.normalize).walk [] p.steps with
  | ok d' => exact ⟨hempty, hslash, d', rfl⟩
  | error e =>
    rw [hwalk, hwalk'] at hsame
    cases hsame

include hfile hleaf in
/-- **A file is written over as it would be made anew**, where the file and its folder are locked alike. -/
theorem write_withoutFile (hlocked : p.normalize ∈ t.locked ↔ outer p.normalize ∈ t.locked)
    (s : String) :
    ((t.withoutFile p.normalize).write p s).fault = (t.write p s).fault ∧
      ((t.write p s).fault = none → ∀ q,
        ((t.withoutFile p.normalize).write p s).tree.fileAt? q = (t.write p s).tree.fileAt? q) := by
  obtain ⟨hthere, hway⟩ := of_isFile hfile
  have hwrite := write_of_walk (folderAt_eq_false hthere) hway s
  have hwrite' := write_of_walk hleaf (way_withoutFile hfile hleaf) s
  have hsame : (t.withoutFile p.normalize).isLocked p.normalize = t.isLocked p.normalize := by
    have hnone : (t.withoutFile p.normalize).fileAt? p.normalize = none := by
      rw [fileAt?_withoutFile, if_pos rfl]
    have hlocks : (t.withoutFile p.normalize).locked = t.locked := rfl
    rw [Bool.eq_iff_iff, isLocked, isLocked, hnone, hthere, hlocks]
    simpa using hlocked.symm
  rw [hsame] at hwrite'
  have hfault : ((t.withoutFile p.normalize).write p s).fault = (t.write p s).fault := by
    have hroom : (t.withoutFile p.normalize).hasRoom s = t.hasRoom s := rfl
    rw [hwrite, hwrite']
    split
    · rfl
    · rw [fault_fill, fault_fill, hroom]
  refine ⟨hfault, fun hnone q => ?_⟩
  have hmade : (t.makeWay p).tree = t := by
    rw [makeWay_of_walk fun hstep => (hway hstep).2.2]
  have hmade' : ((t.withoutFile p.normalize).makeWay p).tree = t.withoutFile p.normalize := by
    rw [makeWay_of_walk (t := t.withoutFile p.normalize)
      fun hstep => (way_withoutFile hfile hleaf hstep).2.2]
  rw [(written_of_write (hfault.trans hnone)).filled.fileAt?_eq,
    (written_of_write hnone).filled.fileAt?_eq, hmade, hmade', fileAt?_withoutFile]
  split <;> rfl

end

end BlitzDoc.FileTree
