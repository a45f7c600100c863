import BlitzDoc.Proofs.FileTree.Lookup

/-!
# Writing a file

What a written file changes, and what it leaves alone. The main statement is `write_cases`: once the
folders on the way to a file are made, the text is refused and nothing more changes, or that file alone
changes, which then holds the text or as much of it as there was room for.

The times that move are those of the file and of the folder around it (`Filled`), and of the folders that
were made on the way and those around them (`MoreFolders`). In a tree that is followed step by step, a
path that could be walked has a folder at every step, so a new file opens no way that was closed before
(`folderAt_putFile_of_walk`).
-/

namespace BlitzDoc.FileTree

/-! ## Times -/

section
variable (t : FileTree) (place : Path)

theorem sameEntries_touch : SameEntries t (t.touch place) := ⟨rfl, rfl, rfl⟩

theorem sameEntries_later (now : Nat) : SameEntries t (t.later now) := ⟨rfl, rfl, rfl⟩

variable {t place}

theorem lookup_times_touch {q : Path} (hq : q ≠ place) :
    (t.touch place).times.lookup q = t.times.lookup q := by
  unfold touch
  cases t.clock with
  | none => rfl
  | some now => rw [lookup_put, if_neg hq]

/-- Without a clock, no time moves. -/
theorem times_touch (h : t.clock = none) : (t.touch place).times = t.times := by
  simp only [touch, h]

theorem lookup_times_enter {q : Path} (hq : q ≠ outer place) :
    (t.enter place).times.lookup q = t.times.lookup q :=
  lookup_times_touch (t := { t with locked := t.locked.filter (· != place) }) hq

theorem times_enter (h : t.clock = none) : (t.enter place).times = t.times :=
  times_touch (t := { t with locked := t.locked.filter (· != place) }) h

theorem not_mem_locked_enter : place ∉ (t.enter place).locked := by
  simp [enter, touch]

theorem components_outer (p : Path) :
    (outer p.normalize).components = p.normalize.components.dropLast := by
  refine Path.components_ofComponents (Path.writable_of_prefix (List.dropLast_prefix _) ?_)
  rw [Path.components_normalize]
  exact Path.writable_place p

/-- The folder around a place lies above it. -/
theorem ne_outer_of_not_above {p q : Path} (hq : ¬q.components <+: p.normalize.components) :
    q ≠ p.normalize ∧ q ≠ outer p.normalize := by
  constructor
  · rintro rfl
    exact hq List.prefix_rfl
  · rintro rfl
    rw [components_outer] at hq
    exact hq (List.dropLast_prefix _)

end

/-! ## Texts that are cut -/

/-- A text that was cut short, if it is still one, is the start of what was to be written. -/
theorem exists_append_of_cut {s s' : String} {n : Nat} (hn : n < s.utf8ByteSize)
    (h : Content.cut s n = .text s') : ∃ more, more ≠ [] ∧ s.toList = s'.toList ++ more := by
  have hread : String.fromUTF8? (s.toUTF8.extract 0 n) = some s' := by
    unfold Content.cut Content.ofBytes at h
    split at h
    · rename_i s'' hs
      cases h
      exact hs
    · cases h
  obtain ⟨hvalid, hbytes⟩ : (s.toByteArray.extract 0 n).IsValidUTF8 ∧
      s'.toByteArray = s.toByteArray.extract 0 n := by
    unfold String.fromUTF8? at hread
    split at hread
    · rename_i hvalid
      cases hread
      exact ⟨hvalid, rfl⟩
    · cases hread
  have hposition : String.Pos.Raw.IsValid s ⟨n⟩ :=
    String.Pos.Raw.isValid_iff_isValidUTF8_extract_zero.2 ⟨by
      simp only [String.Pos.Raw.le_iff, String.byteIdx_rawEndPos]
      omega, hvalid⟩
  obtain ⟨front, more, rfl, hend⟩ := String.Pos.Raw.isValid_iff_exists_append.1 hposition
  have hsize : n = front.utf8ByteSize := congrArg String.Pos.Raw.byteIdx hend
  obtain rfl : s' = front := by
    rw [← String.toByteArray_inj, hbytes, String.toByteArray_append]
    exact ByteArray.extract_append_eq_left hsize
  refine ⟨more.toList, ?_, String.toList_append⟩
  intro hnil
  obtain rfl : more = "" := String.toList_eq_nil_iff.1 hnil
  simp at hn
  omega

/-! ## Writing -/

/-- A file in a folder that can be walked to leaves all folders as they are. -/
theorem folderAt_putFile_of_walk {t : FileTree} {p : Path} {d : List Component}
    (hwalk : t.walk [] p.steps = .ok d) (hfree : t.folderAt p.normalize = false) (content : Content)
    {l : List Component} (hl : Path.Writable l) :
    (t.putFile p content).folderAt (Path.ofComponents l) = t.folderAt (Path.ofComponents l) := by
  have hd : d = p.place := (walk_eq hwalk).trans (Path.foldl_steps p)
  by_cases hplace : Path.ofComponents l = p.normalize
  · rw [hplace, hfree]
    simp [folderAt, fileAt?_putFile]
  cases hstep : stepBelow? (Path.ofComponents l) p.normalize with
  | none => exact folderAt_putFile t p content hstep hplace
  | some c =>
    -- the place lies above the file, so it is a folder before and after
    have hprefix : l <+: p.place.reverse := by
      unfold stepBelow? at hstep
      split at hstep
      · rename_i hpre
        rwa [Path.components_ofComponents hl, Path.components_normalize, List.isPrefixOf_iff_prefix]
          at hpre
      · cases hstep
    have hsuffix : l.reverse <:+ d := by
      rw [hd]
      simpa using List.reverse_suffix.2 hprefix
    have hne : l.reverse ≠ d := by
      intro heq
      apply hplace
      rw [Path.normalize_eq, ← hd, ← heq, List.reverse_reverse]
    have hbefore : t.folderAt (Path.ofComponents l) = true := by
      have h := folderAt_of_walk hwalk (fun q hq hne => absurd (List.eq_nil_of_suffix_nil hq) hne)
        l.reverse hsuffix hne
      rwa [List.reverse_reverse] at h
    have hlisted : c.text ∈ (t.putFile p content).namesIn (Path.ofComponents l) := by
      rw [mem_namesIn]
      refine ⟨p.normalize, ?_, c, hstep, rfl⟩
      have hmem := Imports.mem_of_lookup ((fileAt?_putFile t p content p.normalize).trans (if_pos rfl))
      exact List.mem_append_left _ (List.mem_map_of_mem hmem)
    have hnames : ((t.putFile p content).namesIn (Path.ofComponents l)).isEmpty = false := by
      rw [Bool.eq_false_iff, ne_eq, List.isEmpty_iff]
      exact List.ne_nil_of_mem hlisted
    have hfile : t.fileAt? (Path.ofComponents l) = none := by
      simp only [folderAt, Bool.and_eq_true] at hbefore
      simpa using hbefore.1
    rw [hbefore, folderAt, fileAt?_putFile, if_neg hplace, hfile, hnames]
    rfl

/-- The second tree has a content in the file at a path, where the first one let it in. -/
structure Filled (p : Path) (content : Content) (t t' : FileTree) : Prop where
  entries : SameEntries (t.putFile p content) t'
  clock : t'.clock = t.clock
  room : t'.room = t.room
  unlocked : p.normalize ∉ t'.locked
  times : ∀ q, ¬q.components <+: p.normalize.components → t'.times.lookup q = t.times.lookup q
  /-- Without a clock, no time moves. -/
  still : t.clock = none → t'.times = t.times

/-- A file takes a text where no folder is and nothing is locked, and step by step the way can be
walked. -/
structure Accepts (t : FileTree) (p : Path) : Prop where
  free : t.folderAt p.normalize = false
  unlocked : t.isLocked p.normalize = false
  way : t.addressing = .stepwise →
    p.text.isEmpty = false ∧ p.endsInSlash = false ∧ ∃ d, t.walk [] p.steps = .ok d

theorem checkWrite_eq_ok {t : FileTree} {p : Path} : t.checkWrite p = .ok () ↔ t.Accepts p := by
  have hcheck : (if t.folderAt p.normalize then Except.error Fault.isFolder
        else if t.isLocked p.normalize then .error .denied else .ok ()) = .ok () ↔
      t.folderAt p.normalize = false ∧ t.isLocked p.normalize = false := by
    cases t.folderAt p.normalize <;> cases t.isLocked p.normalize <;> simp
  unfold checkWrite
  cases haddr : t.addressing with
  | normalForm =>
    simp only [hcheck]
    exact ⟨fun ⟨hfree, hlocked⟩ => ⟨hfree, hlocked, fun hstep => by simp [haddr] at hstep⟩,
      fun h => ⟨h.free, h.unlocked⟩⟩
  | stepwise =>
    constructor
    · intro h
      simp only at h
      split at h
      · cases h
      · rename_i hempty
        obtain ⟨d, hwalk, h⟩ := bind_eq_ok.1 h
        split at h
        · cases h
        · rename_i hslash
          obtain ⟨hfree, hlocked⟩ := hcheck.1 h
          exact ⟨hfree, hlocked, fun _ => ⟨by simpa using hempty, by simpa using hslash, d, hwalk⟩⟩
    · intro h
      obtain ⟨hempty, hslash, d, hwalk⟩ := h.way haddr
      simp [hempty, hslash, hwalk, h.free, h.unlocked, bind, Except.bind]

/-- **What filling a file leaves behind.** -/
theorem filled_fillWith {t : FileTree} {p : Path} (h : t.isLocked p.normalize = false)
    (content : Content) : Filled p content t (t.fillWith p content) := by
  cases hfile : (t.fileAt? p.normalize).isSome with
  | true =>
    have hunlocked : p.normalize ∉ t.locked := by simpa [isLocked, hfile] using h
    simp only [fillWith, hfile, if_true]
    refine ⟨⟨rfl, rfl, rfl⟩, rfl, rfl, hunlocked, fun q hq => ?_, fun hclock => ?_⟩
    · exact lookup_times_touch (ne_outer_of_not_above hq).1
    · exact times_touch hclock
  | false =>
    simp only [fillWith, hfile, Bool.false_eq_true, if_false]
    refine ⟨⟨rfl, rfl, rfl⟩, rfl, rfl, not_mem_locked_enter, fun q hq => ?_, fun hclock => ?_⟩
    · obtain ⟨hplace, houter⟩ := ne_outer_of_not_above hq
      exact (lookup_times_touch hplace).trans (lookup_times_enter houter)
    · refine (times_touch ?_).trans (times_enter hclock)
      exact hclock

namespace Filled

variable {t t' : FileTree} {p : Path} {content : Content} (h : Filled p content t t')

include h in
theorem fileAt?_eq (q : Path) :
    t'.fileAt? q = if q = p.normalize then some content else t.fileAt? q := by
  rw [h.entries.fileAt?_eq, fileAt?_putFile]

include h in
/-- Filling a file changes this file alone. -/
theorem sameBut (haccepts : t.Accepts p) : SameBut p.normalize t t' where
  locate q hq := by
    rw [h.entries.locate_eq]
    have hfile : (t.putFile p content).fileAt? q.normalize = t.fileAt? q.normalize := by
      rw [fileAt?_putFile, if_neg hq]
    have haddr : (t.putFile p content).addressing = t.addressing := rfl
    refine toOption_locate haddr (fun hstep l hl => ?_) hfile
    obtain ⟨-, -, d, hd⟩ := haccepts.way hstep
    exact folderAt_putFile_of_walk hd haccepts.free content hl
  fileAt? q hq := by rw [h.fileAt?_eq, if_neg hq]
  namesIn q hq := by
    rw [h.entries.namesIn_eq, namesIn_putFile t p content (stepBelow?_eq_none hq)]
  folderAt q hq := by
    rw [h.entries.folderAt_eq,
      folderAt_putFile t p content (stepBelow?_eq_none hq) (ne_outer_of_not_above hq).1]
  times := h.times

end Filled

/-- What a write leaves in the file: all of the text, or as much as there was room for. -/
structure Written (p : Path) (s : String) (t : FileTree) (c : Change) (content : Content) : Prop where
  accepts : t.Accepts p
  filled : Filled p content t c.tree
  outcome : c.fault = none ∧ content = .text s ∧ t.hasRoom s = true ∨
    c.fault = some .noSpace ∧ ∃ n < s.utf8ByteSize, content = .cut s n

theorem hasRoom_eq_false {t : FileTree} {s : String} (h : t.hasRoom s = false) :
    ∃ n < s.utf8ByteSize, t.room = some n := by
  unfold hasRoom at h
  cases hroom : t.room with
  | none => simp [hroom] at h
  | some n => exact ⟨n, by simpa [hroom] using h, rfl⟩

/-- A text is refused, or it is written. -/
theorem writeHere_cases (t : FileTree) (p : Path) (s : String) :
    ((t.writeHere p s).tree = t ∧ (t.writeHere p s).fault ≠ none) ∨
      ∃ content, Written p s t (t.writeHere p s) content := by
  unfold writeHere
  cases hcheck : t.checkWrite p with
  | error e => exact .inl ⟨rfl, by simp⟩
  | ok u =>
    have haccepts := checkWrite_eq_ok.1 hcheck
    simp only [fill]
    cases hroom : t.hasRoom s with
    | true =>
      exact .inr ⟨_, haccepts, filled_fillWith haccepts.unlocked _, .inl ⟨rfl, rfl, hroom⟩⟩
    | false =>
      obtain ⟨n, hn, hroom'⟩ := hasRoom_eq_false hroom
      rw [hroom']
      exact .inr ⟨_, haccepts, filled_fillWith haccepts.unlocked _, .inr ⟨rfl, n, hn, rfl⟩⟩

/-! ### The way to a file -/

/-- The second tree has more folders, made at some of the paths, and else the same. -/
structure MoreFolders (ps : List Path) (t t' : FileTree) : Prop where
  files : t'.files = t.files
  folders : t.folders ⊆ t'.folders
  addressing : t'.addressing = t.addressing
  clock : t'.clock = t.clock
  room : t'.room = t.room
  times : ∀ q, (∀ p ∈ ps, ¬q.components <+: p.normalize.components) →
    t'.times.lookup q = t.times.lookup q
  /-- Without a clock, no time moves. -/
  still : t.clock = none → t'.times = t.times

namespace MoreFolders

variable {ps qs : List Path} {t t' t'' : FileTree}

theorem refl (ps : List Path) (t : FileTree) : MoreFolders ps t t :=
  ⟨rfl, List.Subset.refl _, rfl, rfl, rfl, fun _ _ => rfl, fun _ => rfl⟩

theorem trans (h : MoreFolders ps t t') (h' : MoreFolders ps t' t'') : MoreFolders ps t t'' where
  files := h'.files.trans h.files
  folders := List.Subset.trans h.folders h'.folders
  addressing := h'.addressing.trans h.addressing
  clock := h'.clock.trans h.clock
  room := h'.room.trans h.room
  times q hq := (h'.times q hq).trans (h.times q hq)
  still hclock := (h'.still (h.clock.trans hclock)).trans (h.still hclock)

theorem mono (h : MoreFolders ps t t') (hsub : ps ⊆ qs) : MoreFolders qs t t' :=
  { h with times := fun q hq => h.times q fun p hp => hq p (hsub hp) }

/-- Making folders changes no file. -/
theorem fileAt?_eq (h : MoreFolders ps t t') (q : Path) : t'.fileAt? q = t.fileAt? q := by
  rw [fileAt?, h.files, fileAt?]

end MoreFolders

/-- A folder is made in a folder that exists, where nothing was before. -/
theorem makeFolder_eq_ok {t t' : FileTree} {p : Path} (h : t.makeFolder p = .ok t') :
    p.text.isEmpty = false ∧ (∃ d, t.walk [] p.steps = .ok d) ∧
      ((t.fileAt? p.normalize).isSome || t.folderAt p.normalize) = false ∧
      t' = (FileTree.enter { t with folders := addFolder t.folders p.normalize } p.normalize).touch
        p.normalize := by
  unfold makeFolder at h
  cases hempty : p.text.isEmpty with
  | true =>
    simp only [hempty, if_true] at h
    cases h
  | false =>
    simp only [hempty, Bool.false_eq_true, if_false] at h
    obtain ⟨d, hwalk, h⟩ := bind_eq_ok.1 h
    split at h
    · split at h
      · cases h
      · rename_i hthere
        split at h
        · cases h
        · cases h
          exact ⟨rfl, ⟨d, hwalk⟩, by simpa using hthere, rfl⟩
    · cases h

theorem subset_addFolder (folders : List Path) (place : Path) : folders ⊆ addFolder folders place := by
  intro q hq
  unfold addFolder
  split
  · exact hq
  · exact List.mem_append_left _ hq

theorem moreFolders_makeFolder {t t' : FileTree} {p : Path} (h : t.makeFolder p = .ok t') :
    MoreFolders [p] t t' := by
  obtain ⟨-, -, -, rfl⟩ := makeFolder_eq_ok h
  refine ⟨rfl, subset_addFolder _ _, rfl, rfl, rfl, fun q hq => ?_, fun hclock => ?_⟩
  · obtain ⟨hplace, houter⟩ := ne_outer_of_not_above (hq p List.mem_cons_self)
    rw [lookup_times_touch hplace, lookup_times_enter houter]
  · refine (times_touch ?_).trans (times_enter ?_)
    · exact hclock
    · exact hclock

/-- Making sure of folders adds folders and does nothing else. -/
theorem moreFolders_ensureFolder (t : FileTree) (ps : List Path) :
    MoreFolders ps t (t.ensureFolder ps).tree := by
  induction ps generalizing t with
  | nil => exact .refl _ _
  | cons p outer ih =>
    have hsettle (u : FileTree) (e : Fault) : (if u.isFolder p then ({ tree := u } : Change)
        else { tree := u, fault := some e }).tree = u := by split <;> rfl
    have hmake {u u' : FileTree} (hu : u.makeFolder p = .ok u') : MoreFolders (p :: outer) u u' :=
      (moreFolders_makeFolder hu).mono (by simp)
    rw [ensureFolder]
    cases hp : t.makeFolder p with
    | ok t' => exact hmake hp
    | error e =>
      cases e with
      | notFound =>
        have houter : MoreFolders (p :: outer) t (t.ensureFolder outer).tree :=
          (ih t).mono (List.subset_cons_self _ _)
        simp only
        split
        · exact houter
        · split
          · rename_i hp'
            exact houter.trans (hmake hp')
          · rw [hsettle]
            exact houter
      | _ =>
        simp only [hsettle]
        exact .refl _ _

/-- The folders that lead to a file. -/
def wayTo (p : Path) : List Path :=
  (p.parent?.map Path.ancestors).getD []

/-- The way to a direct path leads through folders above it. -/
theorem prefix_of_mem_wayTo {p q : Path} (h : p.IsDirect) (hq : q ∈ wayTo p) :
    q.normalize.components <+: p.normalize.components := by
  unfold wayTo at hq
  cases hparent : p.parent? with
  | none => simp [hparent] at hq
  | some folder =>
    obtain ⟨c, more, hsteps⟩ := Path.steps_of_parent? hparent
    have hancestor : q ∈ folder.ancestors := by simpa [hparent] using hq
    refine h.prefix ((Path.steps_ancestors hancestor).trans ?_)
    rw [hsteps]
    exact List.prefix_append _ _

theorem moreFolders_makeWay (t : FileTree) (p : Path) :
    MoreFolders (wayTo p) t (t.makeWay p).tree := by
  unfold makeWay wayTo
  split
  · rename_i folder _ hparent
    rw [hparent]
    exact moreFolders_ensureFolder t _
  · exact .refl _ _

/-- **Writing a file**: once the way to it is made, the text is refused and nothing more changes, or it
changes this file alone. -/
theorem write_cases (t : FileTree) (p : Path) (s : String) :
    ((t.write p s).tree = (t.makeWay p).tree ∧ (t.write p s).fault ≠ none) ∨
      ∃ content, Written p s (t.makeWay p).tree (t.write p s) content := by
  unfold write
  simp only
  split
  · rename_i hfault
    exact .inl ⟨rfl, by simpa [Option.isSome_iff_ne_none] using hfault⟩
  · exact writeHere_cases _ p s

theorem clock_write (t : FileTree) (p : Path) (s : String) : (t.write p s).tree.clock = t.clock := by
  have hmade := moreFolders_makeWay t p
  rcases write_cases t p s with ⟨htree, -⟩ | ⟨content, hwritten⟩
  · rw [htree, hmade.clock]
  · rw [hwritten.filled.clock, hmade.clock]

theorem room_write (t : FileTree) (p : Path) (s : String) : (t.write p s).tree.room = t.room := by
  have hmade := moreFolders_makeWay t p
  rcases write_cases t p s with ⟨htree, -⟩ | ⟨content, hwritten⟩
  · rw [htree, hmade.room]
  · rw [hwritten.filled.room, hmade.room]

namespace Written

variable {t : FileTree} {p : Path} {s : String} {c : Change} {content : Content}

theorem sameBut (h : Written p s t c content) : SameBut p.normalize t c.tree :=
  h.filled.sameBut h.accepts

/-- Without a fault, all of the text was written. -/
theorem content_eq (h : Written p s t c content) (hfault : c.fault = none) :
    content = .text s ∧ t.hasRoom s = true := by
  rcases h.outcome with ⟨-, hcontent, hroom⟩ | ⟨hfull, -⟩
  · exact ⟨hcontent, hroom⟩
  · rw [hfault] at hfull
    cases hfull

end Written

/-- A write without a fault has written all of the text. -/
theorem written_of_write {t : FileTree} {p : Path} {s : String} (h : (t.write p s).fault = none) :
    Written p s (t.makeWay p).tree (t.write p s) (.text s) := by
  rcases write_cases t p s with ⟨-, hfault⟩ | ⟨content, hwritten⟩
  · exact absurd h hfault
  · obtain ⟨rfl, -⟩ := hwritten.content_eq h
    exact hwritten

/-- A text is written where the way can be made, the file takes it and there is room for all. -/
theorem fault_write {t : FileTree} {p : Path} (hway : (t.makeWay p).fault = none)
    (hcheck : (t.makeWay p).tree.checkWrite p = .ok ()) (hroom : t.room = none) (s : String) :
    (t.write p s).fault = none := by
  have hall : (t.makeWay p).tree.hasRoom s = true := by
    rw [hasRoom, (moreFolders_makeWay t p).room, hroom]
    rfl
  simp only [write, hway, Option.isSome_none, Bool.false_eq_true, if_false, writeHere, hcheck, fill,
    hall, if_true]

/-- What was written without a fault stands in the file. -/
theorem fileAt?_write {t : FileTree} {p : Path} {s : String} (h : (t.write p s).fault = none) :
    (t.write p s).tree.fileAt? p.normalize = some (.text s) := by
  rw [(written_of_write h).filled.fileAt?_eq, if_pos rfl]

end BlitzDoc.FileTree
