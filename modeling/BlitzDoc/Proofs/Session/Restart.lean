import BlitzDoc.Proofs.FileTree.Growth
import BlitzDoc.Proofs.Session.History
import BlitzDoc.Proofs.Session.Settled

/-!
# Restarts

A session that starts anew on the files that a rescan has left has nothing to scan: it loads the
modules of the session before it, but for rendered pages, and leaves the files as they are, but for the
time of the cache. The main statement is `load_after_rescan`.

Writing the cache takes nothing away (`FileTree.Grown`), so the module folders with an entry file stay
installed (`installed_grown`). It could add an entry file, where an extension with a slash makes the
cache itself one, or leads through folders that were made for it; that is what `OpensNoEntry` rules out.
With a plain extension it is never so (`opensNoEntry_write`).

It could move the time of a module, where the way to the cache makes a new folder in the folder of the
module, or where the cache itself is the entry file; that is what `LeavesTimes` rules out. With a plain
extension and a way that leads straight to the cache it is never so (`time_write`). A module whose time
has moved is scanned again (`load_scans_moved`).
-/

namespace BlitzDoc.Session

open FileTree (Grown)

/-! ## Entry files that can be read -/

section
variable {t : FileTree} {config : Config} {f : String × String}

/-- A module folder can be scanned where its entry file can be read. -/
theorem isSome_scanned?_iff :
    (scanned? t config f).isSome = true ↔ ∃ text, t.read (entry config f) = .ok text := by
  rw [scanned?_eq, Option.isSome_map, Option.isSome_map]
  unfold Imports.analyzeFile
  constructor
  · intro h
    split at h
    · cases h
    · split at h
      · cases h
      · rename_i text hread
        exact ⟨text, hread⟩
  · rintro ⟨text, hread⟩
    simp [Imports.exists_of_read hread, hread, Except.toOption]

/-- Writing the cache gives no module folder an entry file: one that can be read afterwards could be
read before. -/
def OpensNoEntry (config : Config) (t t' : FileTree) : Prop :=
  ∀ f ∈ installed t' config, ∀ text, t'.read (entry config f) = .ok text →
    f ∈ installed t config ∧ ∃ before, t.read (entry config f) = .ok before

end

/-! ## Module folders in a tree that grows -/

section
variable {t t' : FileTree} {config : Config} {place : Path} {f : String × String}

theorem folders_grown (h : Grown place t t') (hf : f ∈ folders t config) : f ∈ folders t' config := by
  obtain ⟨parents, names, hparents, hfst, hmod, hnames, hsnd, hmod'⟩ := mem_folders hf
  obtain ⟨parents', hparents', hsub⟩ := h.list_mono (Imports.toOption_eq_some_iff.1 hparents)
  obtain ⟨names', hnames', hsub'⟩ := h.list_mono (Imports.toOption_eq_some_iff.1 hnames)
  exact mem_folders_of_list hparents' (hsub hfst) hmod hnames' (hsub' hsnd) hmod'

theorem installed_grown (h : Grown place t t') (hf : f ∈ installed t config) :
    f ∈ installed t' config := by
  obtain ⟨hfolder, hentry⟩ := mem_installed.1 hf
  exact mem_installed.2 ⟨folders_grown h hfolder, h.exists?_mono hentry⟩

/-- Step by step, the way to an entry file leads through its folder. -/
theorem isFolder_of_walk_entry (hstep : t.addressing = .stepwise) (hf : f ∈ folders t config)
    {d : List Component} (hwalk : t.walk [] (entry config f).steps = .ok d) :
    t.isFolder (folderOf config f.1 f.2) = true := by
  obtain ⟨-, hsnd⟩ := isPiece_of_mem_folders hf
  obtain ⟨hrel, hname⟩ := isAbsolute_entryName config hsnd
  have hjoin : entry config f = (folderOf config f.1 f.2).join ⟨entryName config f.2⟩ := rfl
  rw [hjoin] at hwalk
  obtain ⟨hway, hfolder⟩ := FileTree.folder_of_walk_join hrel hname hwalk
  exact (FileTree.isFolder_iff_of_stepwise hstep).2 ⟨Path.isEmpty_text_name hsnd _, hway, hfolder⟩

end

/-! ## Writing the cache -/

section
variable {t : FileTree} {config : Config} {text : String} {f : String × String}
  (hfault : (t.write config.cacheFile text).fault = none)

theorem sameBut_write (hfault : (t.write config.cacheFile text).fault = none) :
    FileTree.SameBut (cachePlace config) (t.makeWay config.cacheFile).tree
      (t.write config.cacheFile text).tree :=
  (FileTree.written_of_write hfault).sameBut

variable (houtside : ¬config.modFolder.normalize.components <+: (cachePlace config).components)

include hfault houtside in
/-- A module folder with an entry file keeps its time where no time moves. -/
theorem time_write_of_lookup (hf : f ∈ installed t config)
    (hfolder : (t.write config.cacheFile text).tree.times.lookup (folderOf config f.1 f.2).normalize =
      t.times.lookup (folderOf config f.1 f.2).normalize)
    (hentry : (t.write config.cacheFile text).tree.times.lookup (entry config f).normalize =
      t.times.lookup (entry config f).normalize) :
    time (t.write config.cacheFile text).tree config f = time t config f := by
  have hgrown := FileTree.grown_write hfault
  obtain ⟨hmem, hexists⟩ := mem_installed.1 hf
  have hfile : ((t.write config.cacheFile text).tree.modified (entry config f)).toOption =
      (t.modified (entry config f)).toOption := by
    obtain ⟨n, hn⟩ := FileTree.modified_of_exists hexists
    rw [hn, hgrown.modified_mono hentry hn]
  have houter : ((t.write config.cacheFile text).tree.modified (folderOf config f.1 f.2)).toOption =
      (t.modified (folderOf config f.1 f.2)).toOption := by
    cases haddr : t.addressing with
    | normalForm =>
      have hway : (t.makeWay config.cacheFile).tree = t := by simp [FileTree.makeWay, haddr]
      have hsame := sameBut_write hfault
      rw [hway] at hsame
      exact hsame.toOption_modified (not_above_folder houtside hmem)
    | stepwise =>
      obtain ⟨d, hwalk⟩ := FileTree.walk_of_exists haddr hexists
      have hthere : t.exists? (folderOf config f.1 f.2) = true := by
        simp [FileTree.exists?, isFolder_of_walk_entry haddr hmem hwalk]
      obtain ⟨n, hn⟩ := FileTree.modified_of_exists hthere
      rw [hn, hgrown.modified_mono hfolder hn]
  simp only [time, lastModified, houter]
  rw [← entry, hfile]

/-- The way to the cache leads straight there, if there is anything to be made on it at all. -/
def StraightWay (config : Config) (t : FileTree) : Prop :=
  config.cacheFile.IsDirect ∨ (t.makeWay config.cacheFile).tree = t

include hfault in
/-- A straight way moves times of the cache and of folders above it alone. -/
theorem lookup_times_write (hway : StraightWay config t) {q : Path}
    (hq : ¬q.components <+: (cachePlace config).components) :
    (t.write config.cacheFile text).tree.times.lookup q = t.times.lookup q := by
  refine ((FileTree.written_of_write hfault).filled.times q hq).trans ?_
  rcases hway with hdirect | hway
  · refine (FileTree.moreFolders_makeWay t config.cacheFile).times q fun p hp habove => hq ?_
    exact habove.trans (FileTree.prefix_of_mem_wayTo hdirect hp)
  · rw [hway]

include hfault houtside in
/-- **Writing the cache moves no time** of a module folder with an entry file, where the extension is
plain and the way to the cache leads straight there. -/
theorem time_write (hplain : '/' ∉ config.extension.toList) (hway : StraightWay config t)
    (hf : f ∈ installed t config) :
    time (t.write config.cacheFile text).tree config f = time t config f := by
  obtain ⟨hmem, -⟩ := mem_installed.1 hf
  exact time_write_of_lookup hfault houtside hf
    (lookup_times_write hfault hway (not_above_folder houtside hmem))
    (lookup_times_write hfault hway (not_above_entry houtside hmem hplain))

end

/-- Writing the cache moves the time of no module, nor would it if the cache were written again. -/
structure LeavesTimes (config : Config) (t t' : FileTree) : Prop where
  times : ∀ f ∈ installed t config, time t' config f = time t config f
  /-- The cache is no entry file itself, or writing a file does not move its time. -/
  apart : t.clock = none ∨ ∀ f ∈ installed t config, (entry config f).normalize ≠ cachePlace config

/-! ## Plain extensions -/

section
variable {t u : FileTree} {config : Config} {f : String × String}

/-- Step by step, the way to an entry file leads through both folders of the module. -/
theorem folderAt_of_walk_entry (hstep : t.addressing = .stepwise) (hf : f ∈ folders t config)
    {d : List Component} (hwalk : t.walk [] (entry config f).steps = .ok d) :
    t.folderAt (config.modFolder / f.1).normalize = true ∧
      t.folderAt (folderOf config f.1 f.2).normalize = true := by
  obtain ⟨-, hsnd⟩ := isPiece_of_mem_folders hf
  have hinner := isFolder_of_walk_entry hstep hf hwalk
  obtain ⟨-, ⟨e, hway⟩, hfolder⟩ := (FileTree.isFolder_iff_of_stepwise hstep).1 hinner
  have hne : f.2 ≠ "" := by
    intro hempty
    have hpiece := hsnd.1
    rw [Component.text, hempty] at hpiece
    cases hpiece
  have hjoin : folderOf config f.1 f.2 = (config.modFolder / f.1).join ⟨f.2⟩ := rfl
  rw [hjoin] at hway
  exact ⟨(FileTree.folder_of_walk_join (Path.isAbsolute_piece hsnd.2) hne hway).2, hfolder⟩

/-- Step by step, an entry file that can be read has a name of its own: the marks of a path stand for
folders on the way. -/
theorem components_entry (hstep : t.addressing = .stepwise) (hf : f ∈ folders t config)
    (hplain : '/' ∉ config.extension.toList) {text : String}
    (hread : t.read (entry config f) = .ok text) :
    (entry config f).normalize.components =
      (folderOf config f.1 f.2).normalize.components ++ [.name (entryName config f.2)] := by
  obtain ⟨-, hsnd⟩ := isPiece_of_mem_folders hf
  obtain ⟨-, ⟨d, hwalk⟩, -, hfile⟩ := (FileTree.read_iff_of_stepwise hstep).1 hread
  obtain ⟨houter, hinner⟩ := folderAt_of_walk_entry hstep hf hwalk
  have hplace : (entry config f).place =
      (Component.ofPiece? (entryName config f.2).toList).toList.foldl Path.foldStep
        (folderOf config f.1 f.2).place :=
    Path.place_piece (slash_not_mem_entryName hsnd hplain) _
  -- a file lies where no folder is
  have hapart : ∀ p : Path, t.folderAt p.normalize = true → (entry config f).place ≠ p.place := by
    intro p hp heq
    rw [Path.normalize_eq, heq, ← Path.normalize_eq] at hfile
    simp [FileTree.folderAt, hfile] at hp
  unfold Component.ofPiece? at hplace
  split at hplace
  · exact absurd hplace (hapart _ hinner)
  · exact absurd hplace (hapart _ hinner)
  · refine absurd hplace ?_
    rw [folderOf, Path.place_name hsnd]
    exact hapart _ houter
  · rw [String.ofList_toList] at hplace
    rw [Path.components_normalize, hplace, Path.components_normalize]
    exact List.reverse_cons

/-- A tree with more folders, but no other files, shows no entry file that could not be read before. -/
theorem read_entry_of_folders (hstep : t.addressing = .stepwise) (haddr : u.addressing = t.addressing)
    (hfiles : u.files = t.files) (hmod : t.isFolder config.modFolder = true)
    (hplain : '/' ∉ config.extension.toList) (hf : f ∈ folders u config) {text : String}
    (hread : u.read (entry config f) = .ok text) :
    f ∈ folders t config ∧ t.read (entry config f) = .ok text := by
  have hstep' : u.addressing = .stepwise := haddr.trans hstep
  have hsame : ∀ q, u.fileAt? q = t.fileAt? q := by
    intro q
    rw [FileTree.fileAt?, hfiles, FileTree.fileAt?]
  have hnone : ∀ {q}, u.folderAt q = true → t.fileAt? q = none := by
    intro q hq
    simp only [FileTree.folderAt, Bool.and_eq_true] at hq
    simpa [hsame] using hq.1
  obtain ⟨-, -, -, -, hmodFst, -, -, hmodSnd⟩ := mem_folders hf
  obtain ⟨hfst, hsnd⟩ := isPiece_of_mem_folders hf
  obtain ⟨hempty, ⟨d, hwalk⟩, hslash, hfile⟩ := (FileTree.read_iff_of_stepwise hstep').1 hread
  rw [hsame] at hfile
  have hthere : (t.fileAt? (entry config f).normalize).isSome = true := by rw [hfile]; rfl
  obtain ⟨houter, hinner⟩ := folderAt_of_walk_entry hstep' hf hwalk
  -- the file lies below both folders of the module, in either tree
  have hbelow := components_entry hstep' hf hplain hread
  have hbelow' : (entry config f).normalize.components =
      (config.modFolder / f.1).normalize.components ++ [.name f.2, .name (entryName config f.2)] := by
    rw [hbelow, folderOf, Path.components_normalize_name hsnd, List.append_assoc]
    rfl
  have hbelow'' : (entry config f).normalize.components =
      config.modFolder.normalize.components ++
        [.name f.1, .name f.2, .name (entryName config f.2)] := by
    rw [hbelow', Path.components_normalize_name hfst, List.append_assoc]
    rfl
  have hparent : t.isFolder (config.modFolder / f.1) = true :=
    FileTree.isFolder_name hstep hmod hfst (FileTree.folderAt_above hthere hbelow' (hnone houter))
  have hfolder : t.isFolder (folderOf config f.1 f.2) = true :=
    FileTree.isFolder_name hstep hparent hsnd (FileTree.folderAt_above hthere hbelow (hnone hinner))
  constructor
  · exact mem_folders_of_list (FileTree.list_eq_ok_iff.2 ⟨hmod, rfl⟩)
      (FileTree.mem_namesIn_above hthere hbelow'') hmodFst (FileTree.list_eq_ok_iff.2 ⟨hparent, rfl⟩)
      (FileTree.mem_namesIn_above hthere hbelow') hmodSnd
  · have hway := FileTree.walk_piece hstep hfolder (slash_not_mem_entryName hsnd hplain)
    exact (FileTree.read_iff_of_stepwise hstep).2 ⟨hempty, hway, hslash, hfile⟩

/-- **With a plain extension, writing the cache opens no entry file.** -/
theorem opensNoEntry_write (houtside : ¬config.modFolder.normalize.components <+:
      (cachePlace config).components) (hplain : '/' ∉ config.extension.toList)
    (hmod : t.isFolder config.modFolder = true) {text : String}
    (hfault : (t.write config.cacheFile text).fault = none) :
    OpensNoEntry config t (t.write config.cacheFile text).tree := by
  intro f hf source hread
  have hsame := sameBut_write hfault
  obtain ⟨hfolder, -⟩ := mem_installed.1 hf
  rw [folders_sameBut hsame houtside] at hfolder
  have hentry := not_above_entry houtside hfolder hplain
  have hbefore : (t.makeWay config.cacheFile).tree.read (entry config f) = .ok source := by
    rw [← Imports.toOption_eq_some_iff, ← hsame.toOption_read (FileTree.SameBut.ne_of_not_above hentry),
      hread]
    rfl
  have hmade := FileTree.moreFolders_makeWay t config.cacheFile
  have hstill : f ∈ folders t config ∧ t.read (entry config f) = .ok source := by
    cases haddr : t.addressing with
    | normalForm =>
      have hway : (t.makeWay config.cacheFile).tree = t := by simp [FileTree.makeWay, haddr]
      rw [hway] at hfolder hbefore
      exact ⟨hfolder, hbefore⟩
    | stepwise =>
      exact read_entry_of_folders haddr hmade.addressing hmade.files hmod hplain hfolder hbefore
  exact ⟨mem_installed.2 ⟨hstill.1, Imports.exists_of_read hstill.2⟩, source, hstill.2⟩

end

/-! ## After a rescan -/

section
variable {t t' : FileTree} {config : Config} {force : Bool} {modules : Catalog Module}

/-- Kept or scanned, a module has the time of its folder. -/
theorem lastModified_of_refresh {f : String × String} {held : Option Module} {m : Module}
    (h : refresh t config force f held = some m) : m.lastModified = time t config f := by
  cases force with
  | true => exact (scanned?_eq_some h).1
  | false =>
    rcases refresh_cases t config f held with ⟨n, -, htime, hkept⟩ | hscanned
    · rw [hkept] at h
      cases h
      exact htime
    · rw [hscanned] at h
      exact (scanned?_eq_some h).1

/-- A folder that can be scanned has a module after a rescan. -/
theorem isSome_refresh {f : String × String} (h : (scanned? t config f).isSome = true)
    (force : Bool) (held : Option Module) : (refresh t config force f held).isSome = true := by
  cases force with
  | true => exact h
  | false =>
    rcases refresh_cases t config f held with ⟨n, -, -, hkept⟩ | hscanned
    · rw [hkept]
      rfl
    · rw [hscanned]
      exact h

/-- **A rescan leaves nothing to scan** in a tree that has the same module folders with the same times
and no new entry files. -/
theorem settled_updated (hordered : Catalog.Ordered modules)
    (hinstalled : ∀ f ∈ installed t config, f ∈ installed t' config)
    (htime : ∀ f ∈ installed t config, time t' config f = time t config f)
    (hopens : OpensNoEntry config t t') : Settled config t' (updated t config force modules) where
  ordered := ordered_updated hordered
  installed key m hm := by
    obtain ⟨f, hf, hkey, -⟩ := exists_of_find?_updated hm
    exact ⟨f, hinstalled f hf, hkey⟩
  fresh f hf m hm := by
    obtain ⟨hbefore, hrefresh⟩ := installed_of_find?_updated (mem_installed.1 hf).1 hm
    rw [lastModified_of_refresh hrefresh, htime f hbefore]
  others f hf hnone := by
    by_contra hscan
    have hsome : (scanned? t' config f).isSome = true := Option.isSome_iff_ne_none.2 hscan
    obtain ⟨text, hread⟩ := isSome_scanned?_iff.1 hsome
    obtain ⟨hbefore, hreadable⟩ := hopens f hf text hread
    have hheld := isSome_refresh (isSome_scanned?_iff.2 hreadable) force (modules.find? (keyOf f))
    rw [← find?_updated hbefore, hnone] at hheld
    cases hheld

/-- Where all numbers were words, they are after a rescan. -/
theorem words_updated (hordered : Catalog.Ordered modules) (hwords : ∀ e ∈ modules, e.2.InWords)
    (hscans : ∀ f ∈ installed t config, ∀ m, scanned? t config f = some m → m.InWords) :
    ∀ e ∈ updated t config force modules, e.2.InWords := by
  rintro ⟨key, m⟩ he
  have hfind := (Catalog.mem_iff_find? (ordered_updated hordered) key m).1 he
  obtain ⟨f, hf, rfl, hrefresh⟩ := exists_of_find?_updated hfind
  cases force with
  | true => exact hscans f hf m hrefresh
  | false =>
    rcases refresh_cases t config f (modules.find? (keyOf f)) with ⟨n, hheld, -, hkept⟩ | hscanned
    · rw [hkept] at hrefresh
      cases hrefresh
      exact hwords (keyOf f, m) ((Catalog.mem_iff_find? hordered _ _).2 hheld)
    · exact hscans f hf m (hscanned.symm.trans hrefresh)

/-- What is settled stays settled while no time of a module moves. -/
theorem Settled.of_sameEntries (h : Settled config t modules) (hsame : FileTree.SameEntries t t')
    (htime : ∀ f ∈ Session.installed t config, ∀ m, modules.find? (keyOf f) = some m →
      time t' config f = time t config f) : Settled config t' modules where
  ordered := h.ordered
  installed key m hm := by
    rw [installed_sameEntries hsame]
    exact h.installed key m hm
  fresh f hf m hm := by
    rw [installed_sameEntries hsame] at hf
    rw [htime f hf m hm]
    exact h.fresh f hf m hm
  others f hf hnone := by
    rw [installed_sameEntries hsame] at hf
    have hbefore := h.others f hf hnone
    rw [← Option.not_isSome_iff_eq_none, isSome_scanned?_iff] at hbefore ⊢
    rwa [hsame.read_eq]

end

/-! ## Sessions and their cache -/

/-- The session is settled, and the cache holds its modules and could be written again. -/
structure Saved (s : Session) (t : FileTree) : Prop where
  folder : t.isFolder s.config.modFolder = true
  settled : Settled s.config t s.modules
  words : ∀ e ∈ s.modules, e.2.InWords
  kept : t.Keeps s.config.cacheFile (cacheText s.modules)
  outside : ¬s.config.modFolder.normalize.components <+: (cachePlace s.config).components
  /-- Writing the cache moves the time of no module. -/
  apart : t.clock = none ∨ ∀ f ∈ installed t s.config, ∀ m, s.modules.find? (keyOf f) = some m →
    (entry s.config f).normalize ≠ cachePlace s.config

namespace Saved

variable {s : Session} {t : FileTree} (h : Saved s t)

include h in
/-- Another time of day makes no difference. -/
theorem later (now : Nat) : Saved s (t.later now) where
  folder := by rw [(FileTree.sameEntries_later t now).isFolder_eq, h.folder]
  settled := h.settled.of_sameEntries (FileTree.sameEntries_later t now) fun f _ _ _ =>
    time_sameEntries (FileTree.sameEntries_later t now) rfl rfl
  words := h.words
  kept := h.kept.of_sameEntries (FileTree.sameEntries_later t now) rfl rfl
  outside := h.outside
  apart := by
    rw [installed_sameEntries (FileTree.sameEntries_later t now)]
    refine h.apart.imp_left fun hclock => ?_
    rw [FileTree.later, hclock]
    rfl

include h in
/-- Nor does another time of the cache. -/
theorem touch : Saved s (t.touch (cachePlace s.config)) := by
  have hsame := FileTree.sameEntries_touch t (cachePlace s.config)
  have htime : ∀ f ∈ installed t s.config, ∀ m, s.modules.find? (keyOf f) = some m →
      time (t.touch (cachePlace s.config)) s.config f = time t s.config f := by
    intro f hf m hm
    rcases h.apart with hclock | hapart
    · have htimes : (t.touch (cachePlace s.config)).times = t.times := FileTree.times_touch hclock
      exact time_sameEntries hsame (by rw [htimes]) (by rw [htimes])
    · have hfolder := not_above_folder h.outside (mem_installed.1 hf).1
      exact time_sameEntries hsame
        (FileTree.lookup_times_touch (FileTree.SameBut.ne_of_not_above hfolder))
        (FileTree.lookup_times_touch (hapart f hf m hm))
  exact
    { folder := by rw [hsame.isFolder_eq, h.folder]
      settled := h.settled.of_sameEntries hsame htime
      words := h.words
      kept := h.kept.of_sameEntries hsame rfl rfl
      outside := h.outside
      apart := by
        rw [installed_sameEntries hsame]
        exact h.apart }

include h in
/-- A rescan of a session that is saved changes nothing but the time of the cache. -/
theorem rescan :
    (s.rescan t false).result = .ok { scanned := 0, reused := s.modules.length, removed := 0 } ∧
      (s.rescan t false).session = s ∧ (s.rescan t false).tree = t.touch (cachePlace s.config) :=
  rescan_of_settled h.folder h.settled h.kept.write

include h in
/-- Pages are not saved. -/
theorem withoutHtml (help : List HelpEntry) :
    Saved { s with modules := Catalog.mapValues Module.withoutHtml s.modules, help } t where
  folder := h.folder
  settled :=
    { ordered := Catalog.ordered_mapValues h.settled.ordered _
      installed key m hm := by
        rw [Catalog.find?_mapValues] at hm
        obtain ⟨n, hn, -⟩ := Option.map_eq_some_iff.1 hm
        exact h.settled.installed key n hn
      fresh f hf m hm := by
        rw [Catalog.find?_mapValues] at hm
        obtain ⟨n, hn, rfl⟩ := Option.map_eq_some_iff.1 hm
        exact h.settled.fresh f hf n hn
      others f hf hnone := by
        rw [Catalog.find?_mapValues, Option.map_eq_none_iff] at hnone
        exact h.settled.others f hf hnone }
  words := by
    intro e he
    obtain ⟨d, hd, rfl⟩ := List.mem_map.1 he
    exact ⟨(h.words d hd).lastModified, (h.words d hd).commands⟩
  kept := by
    rw [cacheText_withoutHtml]
    exact h.kept
  outside := h.outside
  apart := h.apart.imp_right fun hapart f hf m hm => by
    rw [Catalog.find?_mapValues] at hm
    obtain ⟨n, hn, -⟩ := Option.map_eq_some_iff.1 hm
    exact hapart f hf n hn

include h in
/-- **A new session loads what was saved**, without a scan. -/
theorem load :
    (Session.load { config := s.config } t).result =
        .ok { scanned := 0, reused := s.modules.length, removed := 0 } ∧
      (Session.load { config := s.config } t).session =
        { config := s.config, modules := Catalog.mapValues Module.withoutHtml s.modules } ∧
      (Session.load { config := s.config } t).tree = t.touch (cachePlace s.config) := by
  have hcache : (Session.readCache { config := s.config } t).1 =
      { config := s.config, modules := Catalog.mapValues Module.withoutHtml s.modules } :=
    readCache_of_read (s := { config := s.config }) h.kept.read h.settled.ordered h.words
  have hlength : (Catalog.mapValues Module.withoutHtml s.modules).length = s.modules.length := by
    simp [Catalog.mapValues]
  have hrescan := (h.withoutHtml []).rescan
  rw [hlength] at hrescan
  simp only [Session.load, hcache]
  exact hrescan

end Saved

/-! ## The restart -/

/-- The modules are in the order of their keys, and all numbers are words: those of the modules that
are held and those of the modules that a scan would give. -/
structure InRange (s : Session) (t : FileTree) : Prop where
  ordered : Catalog.Ordered s.modules
  words : ∀ e ∈ s.modules, e.2.InWords
  scans : ∀ f ∈ installed t s.config, ∀ m, scanned? t s.config f = some m → m.InWords

/-- The cache lies below the folder of the modules. -/
def CacheInside (config : Config) : Prop :=
  config.modFolder.normalize.components <+: (cachePlace config).components ∧
    cachePlace config ≠ config.modFolder.normalize

instance (config : Config) : Decidable (CacheInside config) :=
  inferInstanceAs (Decidable (_ ∧ _))

/-- Where the cache can be written, it is not the folder of the modules itself. -/
theorem outside_of_write {config : Config} {t : FileTree} {text : String} (h : ¬CacheInside config)
    (hmod : t.isFolder config.modFolder = true)
    (hfault : (t.write config.cacheFile text).fault = none) :
    ¬config.modFolder.normalize.components <+: (cachePlace config).components := by
  intro hbelow
  apply h
  refine ⟨hbelow, ?_⟩
  intro heq
  have hfree : t.folderAt (cachePlace config) = false := (FileTree.grown_write hfault).free
  rw [heq, FileTree.folderAt_of_isFolder hmod] at hfree
  cases hfree

theorem config_rescan (s : Session) (t : FileTree) (force : Bool) :
    (s.rescan t force).session.config = s.config := by
  cases hfolder : t.isFolder s.config.modFolder with
  | false => rw [rescan_of_no_folder s t force hfolder]
  | true => rw [(rescan_of_folder s t force hfolder).1]

/-- **A rescan that succeeds saves the session.** -/
theorem saved_rescan {s : Session} {t : FileTree} {force : Bool} (hrange : InRange s t)
    (hinside : ¬CacheInside s.config)
    (hentries : '/' ∉ s.config.extension.toList ∨ OpensNoEntry s.config t (s.rescan t force).tree)
    (htimes : '/' ∉ s.config.extension.toList ∧ StraightWay s.config t ∨
      LeavesTimes s.config t (s.rescan t force).tree)
    {report : Report} (hok : (s.rescan t force).result = .ok report) :
    Saved (s.rescan t force).session (s.rescan t force).tree := by
  have hfolder := isFolder_of_rescan hok
  obtain ⟨hsession, htree, hresult⟩ := rescan_of_folder s t force hfolder
  have hfault := hresult.1 ⟨report, hok⟩
  have houtside := outside_of_write hinside hfolder hfault
  rw [hsession, htree]
  rw [htree] at hentries htimes
  have hopens : OpensNoEntry s.config t (t.write s.config.cacheFile
      (cacheText (updated t s.config force s.modules))).tree := by
    rcases hentries with hplain | hopens
    · exact opensNoEntry_write houtside hplain hfolder hfault
    · exact hopens
  have hleaves : LeavesTimes s.config t (t.write s.config.cacheFile
      (cacheText (updated t s.config force s.modules))).tree := by
    rcases htimes with ⟨hplain, hway⟩ | hleaves
    · refine ⟨fun f hf => time_write hfault houtside hplain hway hf, .inr fun f hf => ?_⟩
      exact FileTree.SameBut.ne_of_not_above
        (not_above_entry houtside (mem_installed.1 hf).1 hplain)
    · exact hleaves
  have hgrown := FileTree.grown_write hfault
  exact
    { folder := hgrown.isFolder_mono hfolder
      settled := settled_updated hrange.ordered (fun f hf => installed_grown hgrown hf)
        hleaves.times hopens
      words := words_updated hrange.ordered hrange.words hrange.scans
      kept := FileTree.keeps_write hfault
      outside := houtside
      apart := hleaves.apart.imp (FileTree.clock_write _ _ _).trans fun hapart f hf m hm =>
        hapart f (installed_of_find?_updated (mem_installed.1 hf).1 hm).1 }

/-- A session that has read the cache is in range like the one before. -/
theorem inRange_readCache {s : Session} {t : FileTree} (h : InRange s t) :
    InRange (s.readCache t).1 t ∧ (s.readCache t).1.config = s.config := by
  unfold readCache
  simp only
  split
  · exact ⟨h, rfl⟩
  · rename_i text _
    cases hcache : (Json.read? text).bind Cache.ofJson? with
    | none => exact ⟨⟨Catalog.ordered_nil, by simp, h.scans⟩, rfl⟩
    | some entries =>
      obtain ⟨v, -, hv⟩ := Option.bind_eq_some_iff.1 hcache
      refine ⟨⟨Catalog.ordered_ofList entries, ?_, h.scans⟩, rfl⟩
      intro e he
      exact Cache.inWords_of_ofJson? hv e (Catalog.mem_of_mem_ofList he)

/-- A load is a rescan of the session that has read the cache. -/
theorem exists_rescan {s : Session} {t : FileTree} (hrange : InRange s t)
    {o : Outcome (Except Failure Report)} (ho : o = s.load t ∨ ∃ force, o = s.rescan t force) :
    ∃ s₀ force, (InRange s₀ t ∧ s₀.config = s.config) ∧ o.result = (s₀.rescan t force).result ∧
      o.session = (s₀.rescan t force).session ∧ o.tree = (s₀.rescan t force).tree := by
  rcases ho with rfl | ⟨force, rfl⟩
  · exact ⟨(s.readCache t).1, false, inRange_readCache hrange, rfl, rfl, rfl⟩
  · exact ⟨s, force, ⟨hrange, rfl⟩, rfl, rfl, rfl⟩

/-- **A restart finds everything in the cache.** After a load or a rescan that succeeds and leaves the
modules alone, a new session with the same settings loads the same modules at any later time, but for
rendered pages, without a single scan, and leaves the files as they are, the cache among them: only the
time of the cache moves. Rescans of either session change nothing more. -/
theorem load_after_rescan {s : Session} {t : FileTree} (hrange : InRange s t)
    (hinside : ¬CacheInside s.config) {o : Outcome (Except Failure Report)}
    (ho : o = s.load t ∨ ∃ force, o = s.rescan t force)
    {report : Report} (hok : o.result = .ok report)
    (hentries : '/' ∉ s.config.extension.toList ∨ OpensNoEntry s.config t o.tree)
    (htimes : '/' ∉ s.config.extension.toList ∧ StraightWay s.config t ∨
      LeavesTimes s.config t o.tree) (now : Nat) :
    let all : Report := { scanned := 0, reused := o.session.modules.length, removed := 0 }
    let warm := Session.load { config := s.config } (o.tree.later now)
    o.tree.fileAt? (cachePlace s.config) = some (.text (cacheText o.session.modules)) ∧
      (warm.result = .ok all ∧
        warm.session.modules = Catalog.mapValues Module.withoutHtml o.session.modules ∧
        warm.tree = (o.tree.later now).touch (cachePlace s.config)) ∧
      ∀ s' ∈ [o.session, warm.session], ∀ now',
        let again := s'.rescan (warm.tree.later now') false
        again.result = .ok all ∧ again.session.modules = s'.modules ∧
          again.tree = (warm.tree.later now').touch (cachePlace s.config) := by
  obtain ⟨s₀, force, ⟨hrange₀, hconfig⟩, hresult, hsession, htree⟩ := exists_rescan hrange ho
  have hsaved : Saved o.session o.tree := by
    rw [hsession, htree]
    rw [← hconfig] at hinside hentries htimes
    rw [htree] at hentries htimes
    exact saved_rescan hrange₀ hinside hentries htimes (hresult.symm.trans hok)
  have hkept : o.session.config = s.config := by
    rw [hsession, config_rescan, hconfig]
  obtain ⟨hresult', hsession', htree'⟩ := (hsaved.later now).load
  rw [hkept] at hresult' hsession' htree'
  intro all warm
  refine ⟨?_, ⟨hresult', by rw [hsession'], htree'⟩, ?_⟩
  · rw [← hkept]
    exact hsaved.kept.file
  · -- both sessions are saved in the files that the restart has left
    have hwarmTree : Saved o.session warm.tree := by
      rw [htree', ← hkept]
      exact (hsaved.later now).touch
    have hwarm : Saved warm.session warm.tree := by
      rw [hsession', ← hkept]
      exact hwarmTree.withoutHtml []
    have hlength : warm.session.modules.length = o.session.modules.length := by
      rw [hsession']
      simp [Catalog.mapValues]
    have hagain : ∀ s', Saved s' warm.tree → s'.config = s.config →
        s'.modules.length = o.session.modules.length → ∀ now',
        (s'.rescan (warm.tree.later now') false).result = .ok all ∧
          (s'.rescan (warm.tree.later now') false).session.modules = s'.modules ∧
          (s'.rescan (warm.tree.later now') false).tree =
            (warm.tree.later now').touch (cachePlace s.config) := by
      intro s' hs' hs'config hcount now'
      obtain ⟨hr, hs, ht⟩ := (hs'.later now').rescan
      rw [hr, hs, ht, hcount, hs'config]
      exact ⟨rfl, rfl, rfl⟩
    intro s' hs'
    simp only [List.mem_cons, List.not_mem_nil, or_false] at hs'
    rcases hs' with rfl | rfl
    · exact hagain o.session hwarmTree hkept rfl
    · exact hagain warm.session hwarm (by rw [hsession']) hlength

/-- The installation on a disk that sets times. -/
def tickingTree : FileTree :=
  { sampleTree .stepwise with clock := some 5 }

theorem isSample_tickingTree : IsSample tickingTree := by decide +kernel

/-- The folder of the cache is made by the first load, and the second finds its module there. -/
theorem tickingTree_restart :
    let t := tickingTree
    let warm := Session.load { config := sampleConfig } ((sampleLoaded t).later 8)
    warm.result = .ok { scanned := 0, reused := 1, removed := 0 } ∧
      warm.session.modules = sampleCatalog (sampleModule t) ∧
      warm.tree = ((sampleLoaded t).later 8).touch (cachePlace sampleConfig) := by
  have hsample := isSample_tickingTree
  have hnone : tickingTree.read sampleConfig.cacheFile = .error .notFound := by decide +kernel
  have hrange : InRange { config := sampleConfig } tickingTree :=
    ⟨Catalog.ordered_nil, by simp, hsample.regular.words⟩
  have hcache : (Session.readCache { config := sampleConfig } tickingTree).1 =
      { config := sampleConfig } := by
    simp only [readCache, hnone]
  obtain ⟨report, hok⟩ : ∃ report,
      (Session.load { config := sampleConfig } tickingTree).result = .ok report := by
    simp only [Session.load, hcache]
    exact (hsample.rescan false Catalog.ordered_nil hsample.scanned?).2.2.2 (by decide +kernel)
  have hplain : '/' ∉ sampleConfig.extension.toList := by decide
  have hway : StraightWay sampleConfig tickingTree := .inl (by decide +kernel)
  obtain ⟨-, ⟨hresult, hmodules, htree⟩, -⟩ :=
    load_after_rescan hrange (by decide +kernel) (.inl rfl) hok (.inl hplain)
      (.inl ⟨hplain, hway⟩) 8
  obtain ⟨hsession, hloaded⟩ := hsample.load hnone
  rw [hsession, hloaded] at hresult hmodules
  rw [hloaded] at htree
  exact ⟨hresult, by rw [hmodules, sampleSession, withoutHtml_sampleCatalog], htree⟩

/-! ## What a restart scans -/

theorem modified_le_time {t : FileTree} {config : Config} {f : String × String} {n : Nat}
    (h : t.modified (folderOf config f.1 f.2) = .ok n) : n ≤ time t config f := by
  simp only [time, lastModified, h]
  exact Nat.le_max_left n _

/-- **A module whose time has moved is scanned again** by a session that starts anew, where its entry
file can be read and there is room for every cache. -/
theorem load_scans_moved {s : Session} {t : FileTree} (hrange : InRange s t) (hroom : t.room = none)
    {o : Outcome (Except Failure Report)} (ho : o = s.load t ∨ ∃ force, o = s.rescan t force)
    {report : Report} (hok : o.result = .ok report) {f : String × String}
    (hf : f ∈ installed t s.config) {source : String} (hread : o.tree.read (entry s.config f) = .ok source)
    (hmoved : time o.tree s.config f ≠ time t s.config f) :
    ∃ report', (Session.load { config := s.config } o.tree).result = .ok report' ∧
      0 < report'.scanned := by
  obtain ⟨s₀, force, ⟨hrange₀, hconfig⟩, hresult, -, htree⟩ := exists_rescan hrange ho
  rw [hresult] at hok
  rw [htree] at hread hmoved ⊢
  rw [← hconfig] at hf hread hmoved ⊢
  have hfolder := isFolder_of_rescan hok
  obtain ⟨-, hwritten, hanswer⟩ := rescan_of_folder s₀ t force hfolder
  have hfault := hanswer.1 ⟨report, hok⟩
  rw [hwritten] at hread hmoved ⊢
  have hgrown := FileTree.grown_write hfault
  have hkeeps := FileTree.keeps_write hfault
  have hnever := (FileTree.room_write t s₀.config.cacheFile
    (cacheText (updated t s₀.config force s₀.modules))).trans hroom
  generalize (t.write s₀.config.cacheFile (cacheText (updated t s₀.config force s₀.modules))).tree = t'
    at hgrown hkeeps hread hmoved hnever ⊢
  -- the cache gives the modules back, with the times that they had before it was written
  have hcache := readCache_of_read (s := { config := s₀.config }) hkeeps.read
    (ordered_updated hrange₀.ordered) (words_updated hrange₀.ordered hrange₀.words hrange₀.scans)
  have hordered : Catalog.Ordered
      (Catalog.mapValues Module.withoutHtml (updated t s₀.config force s₀.modules)) :=
    Catalog.ordered_mapValues (ordered_updated hrange₀.ordered) _
  have hwrite (modules : Catalog Module) :
      (t'.write s₀.config.cacheFile (cacheText modules)).fault = none := by
    rw [hkeeps.write_other (by simp [FileTree.hasRoom, hnever])]
  have hreport := rescan_result (s := ⟨s₀.config, Catalog.mapValues Module.withoutHtml
    (updated t s₀.config force s₀.modules), []⟩) false (hgrown.isFolder_mono hfolder) hordered
  simp only [hwrite] at hreport
  simp only [Session.load, hcache]
  rw [hreport]
  refine ⟨_, rfl, List.countP_pos_iff.2 ⟨f, installed_grown hgrown hf, ?_⟩⟩
  have hstale : isReused t' s₀.config false
      (Catalog.mapValues Module.withoutHtml (updated t s₀.config force s₀.modules)) f = false := by
    rw [isReused, Catalog.find?_mapValues, find?_updated hf]
    cases hheld : refresh t s₀.config force f (s₀.modules.find? (keyOf f)) with
    | none => rfl
    | some m =>
      have htime : m.lastModified = time t s₀.config f := lastModified_of_refresh hheld
      have hkept : m.withoutHtml.lastModified = m.lastModified := rfl
      simp [hkept, htime, hmoved.symm]
  simp [isScanned, hstale, isSome_scanned?_iff, hread]

/-- With no cache to read, a load is a rescan. -/
theorem load_of_no_cache {s : Session} {t : FileTree} {e : Fault}
    (hnone : t.read s.config.cacheFile = .error e) :
    (s.load t).result = (s.rescan t false).result ∧ (s.load t).tree = (s.rescan t false).tree := by
  simp only [Session.load, readCache, hnone, and_self]

/-- An extension that leads from the folder of a module to the cache. -/
def slashConfig : Config :=
  { root := ⟨"root"⟩, cacheFile := ⟨"root/c.json"⟩, extension := "x/../../../../c.json" }

/-- An installation with a module folder, but no entry file. -/
def slashTree : FileTree where
  files := [(⟨"root/mod/a.mod/b.mod/readme"⟩, .text "")]

/-- A cache whose way makes a folder in the folder of a module and leads out of it again. -/
def detourConfig : Config :=
  { sampleConfig with cacheFile := ⟨"r/mod/a.mod/b.mod/x/../../../../c.json"⟩ }

/-- The paths on the way to the cache. -/
def detourWay : List Path :=
  ["r/mod/a.mod/b.mod/x/../../../..", "r/mod/a.mod/b.mod/x/../../..", "r/mod/a.mod/b.mod/x/../..",
    "r/mod/a.mod/b.mod/x/..", "r/mod/a.mod/b.mod/x", "r/mod/a.mod/b.mod", "r/mod/a.mod", "r/mod",
    "r"].map Path.mk

theorem makeWay_detour :
    tickingTree.makeWay detourConfig.cacheFile = tickingTree.ensureFolder detourWay := by
  have hparent : detourConfig.cacheFile.parent? = some ⟨"r/mod/a.mod/b.mod/x/../../../.."⟩ := by
    decide +kernel
  have hancestors : Path.ancestors ⟨"r/mod/a.mod/b.mod/x/../../../.."⟩ = detourWay := by
    decide +kernel
  rw [FileTree.makeWay, hparent]
  exact congrArg tickingTree.ensureFolder hancestors

/-- The way to the cache can be made, and the time of the module moves. -/
theorem ensureFolder_detour :
    (tickingTree.ensureFolder detourWay).fault = none ∧
      (tickingTree.ensureFolder detourWay).tree.checkWrite detourConfig.cacheFile = .ok () ∧
      (tickingTree.ensureFolder detourWay).tree.times.lookup
        (folderOf detourConfig sampleFolder.1 sampleFolder.2).normalize = some 5 := by
  decide +kernel

/-- Writing the cache moves the time of the module. -/
theorem write_detour (text : String) :
    (tickingTree.write detourConfig.cacheFile text).fault = none ∧
      time (tickingTree.write detourConfig.cacheFile text).tree detourConfig sampleFolder ≠
        time tickingTree detourConfig sampleFolder := by
  obtain ⟨hway, hcheck, hlookup⟩ := ensureFolder_detour
  rw [← makeWay_detour] at hway hcheck hlookup
  have hfault := FileTree.fault_write hway hcheck rfl text
  have hbefore : time tickingTree detourConfig sampleFolder = 1 := by decide +kernel
  have hfolder : tickingTree.exists? (folderOf detourConfig sampleFolder.1 sampleFolder.2) = true := by
    decide +kernel
  have hapart : ¬(folderOf detourConfig sampleFolder.1 sampleFolder.2).normalize.components <+:
      detourConfig.cacheFile.normalize.components := by decide +kernel
  have hmoved := ((FileTree.written_of_write hfault).filled.times _ hapart).trans hlookup
  have hmodified := FileTree.modified_eq_of_exists ((FileTree.grown_write hfault).exists?_mono hfolder)
  rw [hmoved, Option.getD_some] at hmodified
  refine ⟨hfault, fun heq => ?_⟩
  have hle := modified_le_time (f := sampleFolder) hmodified
  rw [heq, hbefore] at hle
  exact absurd hle (by decide)

/-- **What gives a second load something to scan.** A slash in the extension can make the cache an entry
file: the first load finds none and writes the cache, which the next one scans as a module. A way to
the cache that leads through the folder of a module can move the time of that folder: the next load
scans the module once more. -/
theorem load_scans_again :
    ¬CacheInside slashConfig ∧
      (Session.load { config := slashConfig } slashTree).result =
        .ok { scanned := 0, reused := 0, removed := 0 } ∧
      (Session.load { config := slashConfig } slashTree).session.modules = [] ∧
      (Session.load { config := slashConfig }
          (Session.load { config := slashConfig } slashTree).tree).result =
        .ok { scanned := 1, reused := 0, removed := 0 } ∧
      ¬CacheInside detourConfig ∧
      (∃ report, (Session.load { config := detourConfig } tickingTree).result = .ok report) ∧
      ∃ report', (Session.load { config := detourConfig }
          (Session.load { config := detourConfig } tickingTree).tree).result = .ok report' ∧
        0 < report'.scanned := by
  refine ⟨by decide +kernel, by decide +kernel, by decide +kernel, by decide +kernel,
    by decide +kernel, ?_⟩
  have hsample := isSample_tickingTree
  have hnone : tickingTree.read detourConfig.cacheFile = .error .notFound := by decide +kernel
  obtain ⟨hresult, htree⟩ := load_of_no_cache (s := { config := detourConfig }) hnone
  obtain ⟨-, hwritten, hanswer⟩ :=
    rescan_of_folder { config := detourConfig } tickingTree false hsample.folder
  obtain ⟨hfault, hmoved⟩ := write_detour
    (cacheText (updated tickingTree detourConfig false []))
  obtain ⟨report, hok⟩ := hanswer.2 hfault
  have hrange : InRange { config := detourConfig } tickingTree :=
    ⟨Catalog.ordered_nil, by simp, hsample.regular.words⟩
  have hmodule : sampleFolder ∈ installed tickingTree detourConfig := by
    have hsingle : installed tickingTree detourConfig = [sampleFolder] := hsample.single
    simp [hsingle]
  have hentry : (entry detourConfig sampleFolder).normalize ≠ detourConfig.cacheFile.normalize := by
    decide +kernel
  have hread := (FileTree.grown_write hfault).read_mono hentry hsample.read
  rw [← hresult] at hok
  rw [hwritten] at htree
  rw [← htree] at hread hmoved
  exact ⟨⟨report, hok⟩, load_scans_moved hrange rfl (.inl rfl) hok hmodule hread hmoved⟩

end BlitzDoc.Session
