import BlitzDoc.Session
import BlitzDoc.Proofs.FileTree.Lookup
import BlitzDoc.Proofs.Imports.Frame
import BlitzDoc.Proofs.Json.Prefix

/-!
# Module folders

What a rescan finds in a file tree: the module folders (`folders`), those with an entry file
(`installed`), the modification time of each and the module that a scan of it gives (`scanned?`).
Keys tell module folders apart (`eq_of_keyOf`), since no name in a path holds a slash.

A file outside of the folder of the modules has no part in this, unless an entry file pulls it in:
trees that differ in such a file alone have the same module folders with the same times and the same
modules (`folders_sameBut`, `time_sameBut`, `scanned?_sameBut`).
-/

namespace BlitzDoc.Session

open Component (IsPiece)

/-! ## What there is to find -/

section
variable (t : FileTree) (config : Config)

/-- The module folders of an installation, each given by its outer folder and its own name. -/
def folders : List (String × String) :=
  moduleFolders t config ((t.list config.modFolder).toOption.getD [])

variable (f : String × String)

/-- The entry file of a module folder. -/
def entry : Path :=
  entryOf config f.1 f.2

/-- The module folder has an entry file. -/
def hasEntry : Bool :=
  t.exists? (entry config f)

/-- The modification time of a module folder. -/
def time : Nat :=
  lastModified t config f.1 f.2

/-- The module that a scan of a module folder gives, if it succeeds. -/
def scanned? : Option Module :=
  (scanModule t config f.1 f.2).toOption.map (·.1)

/-- The module folders with an entry file. -/
def installed : List (String × String) :=
  (folders t config).filter (hasEntry t config)

end

/-- The key of a module folder. -/
def keyOf (f : String × String) : String :=
  Module.keyOf f.1 f.2

section
variable {t : FileTree} {config : Config} {f : String × String}

theorem mem_installed : f ∈ installed t config ↔ f ∈ folders t config ∧ hasEntry t config f = true :=
  List.mem_filter

theorem scanned?_eq (t : FileTree) (config : Config) (f : String × String) :
    scanned? t config f =
      ((Imports.analyzeFile t (entry config f) (moduleOptions config)).toOption.map
        Imports.Outcome.findings).map fun found =>
          { parent := f.1, folderName := f.2
            file := entryName config f.2
            lastModified := time t config f
            name := found.1.moduleName
            commands := found.1.docs
            intro := readIntro t (folderOf config f.1 f.2) } := by
  unfold scanned? scanModule
  cases ho : Imports.analyzeFile t (entryOf config f.1 f.2) (moduleOptions config) with
  | error e => simp [entry, ho, bind, Except.bind, Except.toOption]
  | ok o => simp [entry, ho, bind, Except.bind, Except.toOption, pure, Except.pure, time,
      Imports.Outcome.findings]

/-- A scanned module holds the time of its folder, and no page. -/
theorem scanned?_eq_some {m : Module} (h : scanned? t config f = some m) :
    m.lastModified = time t config f ∧ m.withoutHtml = m := by
  rw [scanned?_eq] at h
  obtain ⟨found, -, rfl⟩ := Option.map_eq_some_iff.1 h
  exact ⟨rfl, Module.withoutHtml_eq rfl⟩

/-! ## Names -/

/-- A listed name that a test tells from the marks of a path is a piece of one. -/
theorem isPiece_of_listed {p : Path} {names : List String} (h : (t.list p).toOption = some names)
    {n : String} (hn : n ∈ names) {test : String → Bool} (htest : test n = true)
    (hmarks : ∀ mark ∈ ["/", ".", ".."], test mark = false) : (Component.name n).IsPiece := by
  have hmark : n ∉ ["/", ".", ".."] := fun hmem => by simp [hmarks n hmem] at htest
  obtain ⟨-, rfl⟩ := FileTree.list_eq_ok_iff.1 (Imports.toOption_eq_some_iff.1 h)
  exact FileTree.isPiece_of_mem_namesIn hn hmark

theorem isPiece_of_isModFolder {p : Path} {names : List String}
    (h : (t.list p).toOption = some names) {n : String} (hn : n ∈ names)
    (hmod : isModFolder n = true) : (Component.name n).IsPiece :=
  isPiece_of_listed h hn hmod (by decide +kernel)

/-- The names of a module folder are listed names of module folders. -/
theorem mem_folders (h : f ∈ folders t config) :
    ∃ parents names, (t.list config.modFolder).toOption = some parents ∧ f.1 ∈ parents ∧
      isModFolder f.1 = true ∧ (t.list (config.modFolder / f.1)).toOption = some names ∧
      f.2 ∈ names ∧ isModFolder f.2 = true := by
  simp only [folders, moduleFolders, List.mem_flatMap, List.mem_filter, List.mem_map] at h
  obtain ⟨parent, ⟨hparent, hmod⟩, folder, ⟨hfolder, hmod'⟩, rfl⟩ := h
  cases hparents : (t.list config.modFolder).toOption with
  | none => simp [hparents] at hparent
  | some parents =>
    cases hnames : (t.list (config.modFolder / parent)).toOption with
    | none => simp [hnames] at hfolder
    | some names =>
      exact ⟨parents, names, rfl, by simpa [hparents] using hparent, hmod, rfl,
        by simpa [hnames] using hfolder, hmod'⟩

theorem mem_folders_of_list {parents names : List String} (hparents : t.list config.modFolder = .ok parents)
    (hfst : f.1 ∈ parents) (hmod : isModFolder f.1 = true)
    (hnames : t.list (config.modFolder / f.1) = .ok names) (hsnd : f.2 ∈ names)
    (hmod' : isModFolder f.2 = true) : f ∈ folders t config := by
  simp only [folders, moduleFolders, List.mem_flatMap, List.mem_filter, List.mem_map, hparents,
    Except.toOption, Option.getD_some]
  refine ⟨f.1, ⟨hfst, hmod⟩, f.2, ⟨?_, hmod'⟩, rfl⟩
  simpa [hnames] using hsnd

theorem isPiece_of_mem_folders (h : f ∈ folders t config) :
    (Component.name f.1).IsPiece ∧ (Component.name f.2).IsPiece := by
  obtain ⟨parents, names, hparents, hfst, hmod, hnames, hsnd, hmod'⟩ := mem_folders h
  exact ⟨isPiece_of_isModFolder hparents hfst hmod, isPiece_of_isModFolder hnames hsnd hmod'⟩

/-- With a plain extension, the name of an entry file is a single piece. -/
theorem slash_not_mem_entryName (h : (Component.name f.2).IsPiece)
    (hplain : '/' ∉ config.extension.toList) : '/' ∉ (entryName config f.2).toList := by
  have hslash : '/' ∉ f.2.toList := h.2
  simp only [entryName, modStem, String.toList_append, String.toList_ofList, List.mem_append, not_or]
  exact ⟨⟨fun hmem => hslash (List.mem_of_mem_take hmem), by decide⟩, hplain⟩

/-- The name of an entry file is seen from its folder, and there is something to it. -/
theorem isAbsolute_entryName (config : Config) (h : (Component.name f.2).IsPiece) :
    Path.isAbsolute ⟨entryName config f.2⟩ = false ∧ entryName config f.2 ≠ "" := by
  have hslash : '/' ∉ f.2.toList := h.2
  have htext : (entryName config f.2).toList =
      f.2.toList.take (f.2.length - 4) ++ '.' :: config.extension.toList := by
    simp [entryName, modStem]
  constructor
  · rw [Path.isAbsolute, htext]
    cases hstem : f.2.toList.take (f.2.length - 4) with
    | nil => simp
    | cons c cs =>
      have hc : c ≠ '/' := by
        rintro rfl
        exact hslash (List.mem_of_mem_take (hstem ▸ List.mem_cons_self))
      simpa using hc
  · intro hempty
    rw [hempty] at htext
    simp at htext

theorem takeWhile_keyOf (h : (Component.name f.1).IsPiece) :
    (keyOf f).toList.takeWhile (· != '/') = f.1.toList := by
  have hslash : '/' ∉ f.1.toList := h.2
  have hall : ∀ c ∈ f.1.toList, (c != '/') = true := by
    intro c hc
    simp only [bne_iff_ne, ne_eq]
    rintro rfl
    exact hslash hc
  simp only [keyOf, Module.keyOf, String.toList_append, List.append_assoc]
  rw [List.takeWhile_append_of_pos hall]
  simp

/-- **Keys tell module folders apart.** -/
theorem key_inj {g : String × String} (hf : (Component.name f.1).IsPiece)
    (hg : (Component.name g.1).IsPiece) (h : keyOf f = keyOf g) : f = g := by
  have hfst : f.1 = g.1 := by
    rw [← String.toList_inj, ← takeWhile_keyOf hf, ← takeWhile_keyOf hg, h]
  have hsnd : f.2 = g.2 := by
    have htext := congrArg String.toList h
    simp only [keyOf, Module.keyOf, String.toList_append, hfst] at htext
    exact String.toList_inj.1 (List.append_cancel_left htext)
  exact Prod.ext hfst hsnd

/-- Two trees never hold different module folders under one key. -/
theorem eq_of_keyOf {u : FileTree} {g : String × String} (hf : f ∈ folders t config)
    (hg : g ∈ folders u config) (h : keyOf f = keyOf g) : f = g :=
  key_inj (isPiece_of_mem_folders hf).1 (isPiece_of_mem_folders hg).1 h

end

/-! ## Trees that differ in times -/

section
variable {t t' : FileTree} {config : Config} (h : FileTree.SameEntries t t')

include h in
theorem installed_sameEntries : installed t' config = installed t config := by
  have hfolders : folders t' config = folders t config := by
    simp only [folders, moduleFolders, h.list_eq]
  have hentry : hasEntry t' config = hasEntry t config := funext fun f => h.exists?_eq _
  rw [installed, installed, hfolders, hentry]

include h in
theorem time_sameEntries {f : String × String}
    (hfolder : t'.times.lookup (folderOf config f.1 f.2).normalize =
      t.times.lookup (folderOf config f.1 f.2).normalize)
    (hentry : t'.times.lookup (entry config f).normalize =
      t.times.lookup (entry config f).normalize) :
    time t' config f = time t config f := by
  simp only [time, lastModified, h.modified_eq hfolder]
  rw [← entry, h.modified_eq hentry]

end

/-! ## Trees that differ in one file -/

section
variable {t t' : FileTree} {config : Config} {place : Path} (h : FileTree.SameBut place t t')

theorem not_above_name {base : Path} {s : String} (hs : (Component.name s).IsPiece)
    (hbase : ¬base.normalize.components <+: place.components) :
    ¬(base / s).normalize.components <+: place.components := by
  rw [Path.components_normalize_name hs]
  exact fun hprefix => hbase ((List.prefix_append _ _).trans hprefix)

variable (houtside : ¬config.modFolder.normalize.components <+: place.components)

include h houtside in
theorem folders_sameBut : folders t' config = folders t config := by
  rw [folders, h.toOption_list houtside]
  cases hparents : (t.list config.modFolder).toOption with
  | none => simp [folders, hparents, moduleFolders]
  | some parents =>
    simp only [folders, hparents, Option.getD_some, moduleFolders]
    refine List.flatMap_congr fun parent hparent => ?_
    obtain ⟨hmem, hmod⟩ := List.mem_filter.1 hparent
    rw [h.toOption_list (not_above_name (isPiece_of_isModFolder hparents hmem hmod) houtside)]

include h in
theorem readIntro_sameBut {folder : Path} (hfolder : ¬folder.normalize.components <+: place.components) :
    readIntro t' folder = readIntro t folder := by
  have hdoc : (Component.name "doc").IsPiece := ⟨rfl, by decide⟩
  have hdocs := not_above_name hdoc hfolder
  simp only [readIntro, h.toOption_list hdocs]
  cases hnames : (t.list (folder / "doc")).toOption with
  | none => rfl
  | some names =>
    cases hfind : names.find? isIntro with
    | none => simp [hfind]
    | some name =>
      have hpiece : (Component.name name).IsPiece :=
        isPiece_of_listed hnames (List.mem_of_find?_eq_some hfind) (List.find?_some hfind)
          (by decide +kernel)
      have hread := h.toOption_read (FileTree.SameBut.ne_of_not_above (not_above_name hpiece hdocs))
      simp [hfind, hread]

variable {f : String × String} (hf : f ∈ folders t config)
  (hentry : ¬(entry config f).normalize.components <+: place.components)

include hf houtside in
theorem not_above_folder : ¬(folderOf config f.1 f.2).normalize.components <+: place.components := by
  obtain ⟨hfst, hsnd⟩ := isPiece_of_mem_folders hf
  exact not_above_name hsnd (not_above_name hfst houtside)

include hf houtside in
/-- With a plain extension, entry files lie in the folder of the modules like all the rest. -/
theorem not_above_entry (hplain : '/' ∉ config.extension.toList) :
    ¬(entry config f).normalize.components <+: place.components := by
  obtain ⟨hfst, hsnd⟩ := isPiece_of_mem_folders hf
  have hfolder : (folderOf config f.1 f.2).place =
      .name f.2 :: .name f.1 :: config.modFolder.place := by
    rw [folderOf, Path.place_name hsnd, Path.place_name hfst]
  have hname := slash_not_mem_entryName hsnd hplain
  have hbelow : config.modFolder.place <:+ (entry config f).place := by
    rw [entry, entryOf, Path.place_piece hname, hfolder]
    -- the name of the entry file may be one of the marks of a path
    unfold Component.ofPiece?
    split
    · exact ⟨[.name f.2, .name f.1], rfl⟩
    · exact ⟨[.name f.2, .name f.1], rfl⟩
    · exact ⟨[.name f.1], rfl⟩
    · exact ⟨[.name _, .name f.2, .name f.1], rfl⟩
  intro hprefix
  apply houtside
  rw [Path.components_normalize] at hprefix ⊢
  exact (List.reverse_prefix.2 hbelow).trans hprefix

include h hentry in
theorem hasEntry_sameBut : hasEntry t' config f = hasEntry t config f :=
  h.exists?_eq hentry

include h houtside hf hentry in
theorem time_sameBut : time t' config f = time t config f := by
  have hfolder := h.toOption_modified (not_above_folder houtside hf)
  have hfile := h.toOption_modified hentry
  simp only [time, lastModified, hfolder]
  rw [← entry, hfile]

variable (hfree : ∀ o, Imports.analyzeFile t (entry config f) (moduleOptions config) = .ok o →
  place ∉ o.visited)

include h hentry hfree in
theorem findings_sameBut :
    (Imports.analyzeFile t' (entry config f) (moduleOptions config)).toOption.map
        Imports.Outcome.findings =
      (Imports.analyzeFile t (entry config f) (moduleOptions config)).toOption.map
        Imports.Outcome.findings :=
  Imports.analyzeFile_congr (fun _ hq => h.toOption_read hq)
    (FileTree.SameBut.ne_of_not_above hentry) hfree

include h houtside hf hentry hfree in
/-- **A file that no scan reads changes no module.** -/
theorem scanned?_sameBut : scanned? t' config f = scanned? t config f := by
  rw [scanned?_eq, scanned?_eq, findings_sameBut h hentry hfree, time_sameBut h houtside hf hentry,
    readIntro_sameBut h (not_above_folder houtside hf)]

end

end BlitzDoc.Session
