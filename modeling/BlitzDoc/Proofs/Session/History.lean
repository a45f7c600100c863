import BlitzDoc.Proofs.Session.Rescan

/-!
# Sessions over time

A session and its files go through a history of rescans, restarts and edits (`Run`). A rescan without
force keeps a module while the modification time of its folder has not moved. That is safe as long as
an edit that changes what a scan would give comes with a time that the folder never had before
(`Edit`): then no module that is held is out of date, and the rescan ends with the same modules and the
same cache as a forced one (`rescan_eq_forced`).

Only the cache itself could come in between: where its folders have to be made, the times of the folders
around them move, and paths that lead through them find their files from then on. A history is about
caches for which this changes no module (`ClearWay`). A write of the cache may be refused, or be cut
short: then the cache is the older one, or one that does not decode.

The invariant (`Inv`) says of every module in the session and in the cache when it was scanned
(`Recorded`), and of every earlier tree that a folder with the time of today looked as it looks today.
-/

namespace BlitzDoc.Session

/-! ## Histories -/

/-- What is to be seen of a module folder: its time and the module that a scan gives. Of a folder
without an entry file, nothing is. -/
def view (t : FileTree) (config : Config) (f : String × String) : Option (Nat × Option Module) :=
  if f ∈ installed t config then some (time t config f, scanned? t config f) else none

/-- The cache is a file of its own, and numbers are words. -/
structure Regular (config : Config) (t : FileTree) : Prop where
  /-- The cache lies outside of the folder of the modules. -/
  outside : ¬config.modFolder.normalize.components <+: (cachePlace config).components
  /-- It is no entry file, nor does it lie below one. -/
  entry : ∀ f ∈ folders t config,
    ¬(entry config f).normalize.components <+: (cachePlace config).components
  /-- No module pulls it in. -/
  unfollowed : ∀ f ∈ installed t config, ∀ o,
    Imports.analyzeFile t (Session.entry config f) (moduleOptions config) = .ok o →
      cachePlace config ∉ o.visited
  words : ∀ f ∈ installed t config, ∀ m, scanned? t config f = some m → m.InWords

/-- A module folder that looks different in the second tree has a time there that it had in no tree
before. -/
def FreshTimes (config : Config) (past : List FileTree) (t t' : FileTree) : Prop :=
  ∀ f ∈ installed t' config, view t' config f ≠ view t config f →
    ∀ u ∈ t :: past, f ∈ installed u config → time u config f ≠ time t' config f

/-- An edit of files other than the cache, which leaves its mark on every module that it changes. -/
structure Edit (config : Config) (past : List FileTree) (t t' : FileTree) : Prop where
  cache : t'.fileAt? (cachePlace config) = t.fileAt? (cachePlace config)
  regular : Regular config t'
  fresh : FreshTimes config past t t'

/-- The folders that are made on the way to the cache change no module and no time of one. -/
structure ClearWay (config : Config) (t : FileTree) : Prop where
  regular : Regular config (t.makeWay config.cacheFile).tree
  view : ∀ f, view (t.makeWay config.cacheFile).tree config f = view t config f

/-- A session and its files after a history that starts without a cache, with the trees that were.
Rescans find trees as `ready` says. -/
inductive Run (config : Config) (ready : FileTree → Prop) : List FileTree → Session → FileTree → Prop
  | start {t : FileTree} : t.fileAt? (cachePlace config) = none → Regular config t →
      Run config ready [] { config } t
  | load {past : List FileTree} {s : Session} {t : FileTree} : Run config ready past s t → ready t →
      Run config ready (t :: past) (s.load t).session (s.load t).tree
  | rescan {past : List FileTree} {s : Session} {t : FileTree} (force : Bool) :
      Run config ready past s t → ready t →
      Run config ready (t :: past) (s.rescan t force).session (s.rescan t force).tree
  | clear {past : List FileTree} {s : Session} {t : FileTree} : Run config ready past s t →
      Run config ready past s.clear t
  | moduleHtml {past : List FileTree} {s : Session} {t : FileTree} (key : String) :
      Run config ready past s t → Run config ready past (s.moduleHtml key).2 t
  | restart {past : List FileTree} {s : Session} {t : FileTree} : Run config ready past s t →
      Run config ready past { config } t
  | edit {past : List FileTree} {s : Session} {t t' : FileTree} : Run config ready past s t →
      Edit config past t t' → Run config ready (t :: past) s t'

/-! ## Records -/

/-- The module was scanned under its key in one of the trees; a page may have been rendered since. -/
def Scanned (config : Config) (trees : List FileTree) (key : String) (m : Module) : Prop :=
  m.InWords ∧ ∃ u ∈ trees, ∃ f ∈ installed u config, keyOf f = key ∧
    scanned? u config f = some m.withoutHtml

/-- All modules of a catalog were scanned in one of the trees. -/
structure Recorded (config : Config) (trees : List FileTree) (modules : Catalog Module) : Prop where
  ordered : Catalog.Ordered modules
  scanned : ∀ key m, modules.find? key = some m → Scanned config trees key m

section
variable {config : Config} {trees : List FileTree} {key : String} {m : Module}
  {modules : Catalog Module}

theorem Scanned.withHtml (h : Scanned config trees key m) (html : Option String) :
    Scanned config trees key { m with html } :=
  ⟨⟨h.1.lastModified, h.1.commands⟩, h.2⟩

namespace Recorded

theorem nil : Recorded config trees [] where
  ordered := Catalog.ordered_nil
  scanned _ _ h := by cases h

theorem mono (h : Recorded config trees modules) {trees' : List FileTree} (hsub : trees ⊆ trees') :
    Recorded config trees' modules where
  ordered := h.ordered
  scanned key m hm := by
    obtain ⟨hwords, u, hu, hrest⟩ := h.scanned key m hm
    exact ⟨hwords, u, hsub hu, hrest⟩

theorem insertHtml (h : Recorded config trees modules) (hm : modules.find? key = some m)
    (html : Option String) : Recorded config trees (modules.insert key { m with html }) where
  ordered := Catalog.ordered_insert h.ordered _ _
  scanned k n hn := by
    rw [Catalog.find?_insert] at hn
    split at hn
    · rename_i hk
      cases hn
      exact hk ▸ (h.scanned key m hm).withHtml html
    · exact h.scanned k n hn

theorem withoutHtml (h : Recorded config trees modules) :
    Recorded config trees (Catalog.mapValues Module.withoutHtml modules) where
  ordered := Catalog.ordered_mapValues h.ordered _
  scanned k n hn := by
    rw [Catalog.find?_mapValues] at hn
    obtain ⟨m, hm, rfl⟩ := Option.map_eq_some_iff.1 hn
    exact (h.scanned k m hm).withHtml none

theorem words (h : Recorded config trees modules) : ∀ e ∈ modules, e.2.InWords := fun e he =>
  (h.scanned e.1 e.2 ((Catalog.mem_iff_find? h.ordered e.1 e.2).1 he)).1

/-- A rescan leaves modules that were scanned before or in the tree of today. -/
theorem updated {t : FileTree} (h : Recorded config (t :: trees) modules) (hregular : Regular config t)
    (force : Bool) : Recorded config (t :: trees) (updated t config force modules) where
  ordered := ordered_updated h.ordered
  scanned key m hm := by
    obtain ⟨f, hf, rfl, hrefresh⟩ := exists_of_find?_updated hm
    have hnew : scanned? t config f = some m → Scanned config (t :: trees) (keyOf f) m := by
      intro hscan
      refine ⟨hregular.words f hf m hscan, t, List.mem_cons_self, f, hf, rfl, ?_⟩
      rw [hscan, (scanned?_eq_some hscan).2]
    cases force with
    | true => exact hnew hrefresh
    | false =>
      rcases refresh_cases t config f (modules.find? (keyOf f)) with
        ⟨n, hheld, -, hkept⟩ | hscan
      · rw [hkept] at hrefresh
        exact h.scanned _ _ (hheld.trans hrefresh)
      · exact hnew (hscan.symm.trans hrefresh)

end Recorded

/-- What stands in the cache does not decode, or its modules were scanned in one of the trees. -/
def CacheRecorded (config : Config) (trees : List FileTree) (t : FileTree) : Prop :=
  ∀ text, t.fileAt? (cachePlace config) = some (.text text) →
    (Json.read? text).bind Cache.ofJson? = none ∨
      ∃ entries, Recorded config trees entries ∧ text = cacheText entries

end

/-! ## The invariant -/

/-- What holds in every history. -/
structure Inv (config : Config) (past : List FileTree) (s : Session) (t : FileTree) : Prop where
  configured : s.config = config
  regular : Regular config t
  session : Recorded config (t :: past) s.modules
  cache : CacheRecorded config (t :: past) t
  /-- A folder with the time of today looked as it looks today. -/
  times : ∀ u ∈ past, ∀ f ∈ installed u config, f ∈ installed t config →
    time u config f = time t config f → scanned? u config f = scanned? t config f

section
variable {config : Config} {past : List FileTree} {s : Session} {t t' : FileTree}

/-- The invariant of a session with other modules. -/
theorem Inv.withModules (I : Inv config past s t) {modules : Catalog Module}
    (h : Recorded config (t :: past) modules) (help : List HelpEntry) :
    Inv config past { s with modules, help } t :=
  ⟨I.configured, I.regular, h, I.cache, I.times⟩

/-- The times of today tell the same of all trees, today's among them. -/
theorem Inv.scanned?_eq (I : Inv config past s t) {u : FileTree} (hu : u ∈ t :: past)
    {f : String × String} (hf : f ∈ installed u config) (hft : f ∈ installed t config)
    (htime : time u config f = time t config f) : scanned? u config f = scanned? t config f := by
  rcases List.mem_cons.1 hu with rfl | hu
  · rfl
  · exact I.times u hu f hf hft htime

/-- **From tree to tree**: the invariant goes over to a tree in which folders that look different have
a time of their own. -/
theorem Inv.move (I : Inv config past s t) (hregular : Regular config t')
    (hcache : CacheRecorded config (t :: past) t') (hfresh : FreshTimes config past t t') :
    Inv config (t :: past) s t' where
  configured := I.configured
  regular := hregular
  session := I.session.mono (List.subset_cons_self _ _)
  cache text hfile := (hcache text hfile).imp_right fun ⟨entries, hentries, htext⟩ =>
    ⟨entries, hentries.mono (List.subset_cons_self _ _), htext⟩
  times u hu f hf hft htime := by
    by_cases hview : view t' config f = view t config f
    · -- the folder was there and looked the same, so its time was compared with the past before
      have hbefore : f ∈ installed t config := by
        by_contra hnot
        simp [view, hft, hnot] at hview
      simp only [view, hft, hbefore, if_true, Option.some.injEq, Prod.mk.injEq] at hview
      rw [hview.2]
      exact I.scanned?_eq hu hf hbefore (htime.trans hview.1)
    · exact absurd htime (hfresh f hft hview u hu hf)

/-! ### Writing the cache -/

section
variable (hregular : Regular config t) (hsame : FileTree.SameBut (cachePlace config) t t')

include hregular hsame in
theorem installed_sameBut : installed t' config = installed t config := by
  rw [installed, installed, folders_sameBut hsame hregular.outside]
  exact List.filter_congr fun f hf => hasEntry_sameBut hsame (hregular.entry f hf)

include hregular hsame in
/-- The cache has no part in what is to be seen of a module folder. -/
theorem seen_sameBut {f : String × String} (hf : f ∈ installed t config) :
    time t' config f = time t config f ∧ scanned? t' config f = scanned? t config f := by
  obtain ⟨hmem, -⟩ := mem_installed.1 hf
  have hentry := hregular.entry f hmem
  exact ⟨time_sameBut hsame hregular.outside hmem hentry,
    scanned?_sameBut hsame hregular.outside hmem hentry (hregular.unfollowed f hf)⟩

include hregular hsame in
theorem view_sameBut (f : String × String) : view t' config f = view t config f := by
  rw [view, view, installed_sameBut hregular hsame]
  split
  · rename_i hf
    obtain ⟨htime, hscan⟩ := seen_sameBut hregular hsame hf
    rw [htime, hscan]
  · rfl

include hregular hsame in
theorem regular_sameBut : Regular config t' where
  outside := hregular.outside
  entry f hf := hregular.entry f (folders_sameBut hsame hregular.outside ▸ hf)
  unfollowed f hf o ho := by
    rw [installed_sameBut hregular hsame] at hf
    have hentry := hregular.entry f (mem_installed.1 hf).1
    have hfound := findings_sameBut hsame hentry (hregular.unfollowed f hf)
    rw [ho] at hfound
    obtain ⟨o', ho', hfindings⟩ := Option.map_eq_some_iff.1 hfound.symm
    have hvisited : o'.visited = o.visited := congrArg Prod.snd hfindings
    rw [← hvisited]
    exact hregular.unfollowed f hf o' (Imports.toOption_eq_some_iff.1 ho')
  words f hf m hm := by
    rw [installed_sameBut hregular hsame] at hf
    exact hregular.words f hf m ((seen_sameBut hregular hsame hf).2 ▸ hm)

end

/-- Writing a cache with recorded modules keeps the invariant. -/
theorem Inv.write (I : Inv config past s t) (hclear : ClearWay config t) {modules : Catalog Module}
    (hmodules : Recorded config (t :: past) modules) :
    Inv config (t :: past) { s with modules } (t.write config.cacheFile (cacheText modules)).tree := by
  have I' := I.withModules hmodules s.help
  rcases FileTree.write_cases t config.cacheFile (cacheText modules) with
    ⟨htree, -⟩ | ⟨content, hwritten⟩
  · -- nothing was written, but the folders that were made on the way stay
    rw [htree]
    refine I'.move hclear.regular ?_ fun f _ hview => absurd (hclear.view f) hview
    rw [CacheRecorded, (FileTree.moreFolders_makeWay t config.cacheFile).fileAt?_eq]
    exact I.cache
  · have hsame := hwritten.sameBut
    refine I'.move (regular_sameBut hclear.regular hsame) ?_
      fun f _ hview => absurd ((view_sameBut hclear.regular hsame f).trans (hclear.view f)) hview
    intro text hfile
    rw [hwritten.filled.fileAt?_eq, cachePlace, if_pos rfl, Option.some.injEq] at hfile
    rcases hwritten.outcome with ⟨-, hall, -⟩ | ⟨-, n, hn, hcut⟩
    · rw [hall] at hfile
      cases hfile
      exact .inr ⟨modules, hmodules, rfl⟩
    · exact .inl (decode_cut hn (hcut.symm.trans hfile))

/-! ### Steps -/

theorem inv_start (hnone : t.fileAt? (cachePlace config) = none) (hregular : Regular config t) :
    Inv config [] { config } t where
  configured := rfl
  regular := hregular
  session := .nil
  cache text hfile := by
    rw [hnone] at hfile
    cases hfile
  times _ hu := absurd hu List.not_mem_nil

theorem inv_rescan (I : Inv config past s t) (hclear : ClearWay config t) (force : Bool) :
    Inv config (t :: past) (s.rescan t force).session (s.rescan t force).tree := by
  cases hfolder : t.isFolder s.config.modFolder with
  | true =>
    obtain ⟨hsession, htree, -⟩ := rescan_of_folder s t force hfolder
    obtain rfl := I.configured
    rw [hsession, htree]
    exact I.write hclear (I.session.updated I.regular force)
  | false =>
    rw [rescan_of_no_folder s t force hfolder]
    exact I.move I.regular I.cache fun _ _ hview => absurd rfl hview

/-- The modules of the cache were scanned like any others. -/
theorem recorded_readCache (I : Inv config past s t) :
    Recorded config (t :: past) (s.readCache t).1.modules := by
  cases hread : t.read s.config.cacheFile with
  | error e =>
    simp only [readCache, hread]
    exact I.session
  | ok text =>
    have hfile : t.fileAt? (cachePlace config) = some (.text text) :=
      I.configured ▸ FileTree.fileAt?_of_read hread
    rcases I.cache text hfile with hjunk | ⟨entries, hentries, rfl⟩
    · simp only [readCache, hread, hjunk]
      exact .nil
    · rw [readCache_of_read hread hentries.ordered hentries.words]
      exact hentries.withoutHtml

theorem inv_readCache (I : Inv config past s t) : Inv config past (s.readCache t).1 t := by
  have hsession : (s.readCache t).1 = { s with modules := (s.readCache t).1.modules } := by
    simp only [readCache]
    split
    · rfl
    · split <;> rfl
  rw [hsession]
  exact I.withModules (recorded_readCache I) s.help

theorem inv_load (I : Inv config past s t) (hclear : ClearWay config t) :
    Inv config (t :: past) (s.load t).session (s.load t).tree :=
  inv_rescan (inv_readCache I) hclear false

theorem inv_moduleHtml (I : Inv config past s t) (key : String) :
    Inv config past (s.moduleHtml key).2 t := by
  unfold moduleHtml
  split
  · exact I
  · rename_i m hm
    exact I.withModules (I.session.insertHtml hm _) s.help

theorem inv_edit (I : Inv config past s t) (h : Edit config past t t') :
    Inv config (t :: past) s t' :=
  I.move h.regular (by rw [CacheRecorded, h.cache]; exact I.cache) h.fresh

/-- **The invariant holds in every history.** -/
theorem inv_run (h : Run config (ClearWay config) past s t) : Inv config past s t := by
  induction h with
  | start hnone hregular => exact inv_start hnone hregular
  | load _ hclear ih => exact inv_load ih hclear
  | rescan force _ hclear ih => exact inv_rescan ih hclear force
  | clear _ ih => exact ih.withModules .nil []
  | moduleHtml key _ ih => exact inv_moduleHtml ih key
  | restart _ ih => exact ⟨rfl, ih.regular, .nil, ih.cache, ih.times⟩
  | edit _ hedit ih => exact inv_edit ih hedit

/-! ## Rescans without force -/

/-- **No module that is kept is out of date.** -/
theorem map_refresh (I : Inv config past s t) {modules : Catalog Module}
    (hmodules : Recorded config (t :: past) modules) {f : String × String}
    (hf : f ∈ installed t config) :
    (refresh t config false f (modules.find? (keyOf f))).map Module.withoutHtml =
      scanned? t config f := by
  rcases refresh_cases t config f (modules.find? (keyOf f)) with
    ⟨m, hheld, htime, hkept⟩ | hscan
  · -- the module was scanned in a tree in which its folder had the time of today
    obtain ⟨-, u, hu, g, hg, hkey, hscanned⟩ := hmodules.scanned _ m hheld
    obtain rfl := eq_of_keyOf (mem_installed.1 hg).1 (mem_installed.1 hf).1 hkey
    have htimes : time u config g = time t config g := by
      rw [← (scanned?_eq_some hscanned).1, ← htime]
      rfl
    rw [hkept, Option.map_some, ← hscanned, I.scanned?_eq hu hg hf htimes]
  · rw [hscan]
    cases hm : scanned? t config f with
    | none => rfl
    | some m => rw [Option.map_some, (scanned?_eq_some hm).2]

theorem updated_eq_forced (I : Inv config past s t) {modules modules' : Catalog Module}
    (hmodules : Recorded config (t :: past) modules) (hordered : Catalog.Ordered modules') :
    Catalog.mapValues Module.withoutHtml (updated t config false modules) =
      updated t config true modules' := by
  refine Catalog.ext (Catalog.ordered_mapValues (ordered_updated hmodules.ordered) _)
    (ordered_updated hordered) fun key => ?_
  rw [Catalog.find?_mapValues]
  by_cases hkey : ∃ f ∈ installed t config, keyOf f = key
  · obtain ⟨f, hf, rfl⟩ := hkey
    rw [find?_updated hf, find?_updated hf, refresh_force, map_refresh I hmodules hf]
  · push Not at hkey
    rw [find?_updated_eq_none hkey, find?_updated_eq_none hkey, Option.map_none]

/-- A rescan that succeeds without force, against a forced one of a session in the same history. -/
theorem rescan_of_inv {s₀ : Session} (I₀ : Inv config past s₀ t) (I : Inv config past s t)
    {report : Report} (hok : (s₀.rescan t false).result = .ok report) :
    (∃ forced, (s.rescan t true).result = .ok forced) ∧
      Catalog.mapValues Module.withoutHtml (s₀.rescan t false).session.modules =
        (s.rescan t true).session.modules ∧
      (s₀.rescan t false).tree = (s.rescan t true).tree ∧
      (s.rescan t true).tree.fileAt? (cachePlace config) =
        some (.text (cacheText (s.rescan t true).session.modules)) := by
  have hconfig : s₀.config = s.config := I₀.configured.trans I.configured.symm
  obtain rfl := I.configured
  have hfolder : t.isFolder s.config.modFolder = true := hconfig ▸ isFolder_of_rescan hok
  obtain ⟨hsession₀, htree₀, hresult₀⟩ := rescan_of_folder s₀ t false (hconfig ▸ hfolder)
  obtain ⟨hsession, htree, hresult⟩ := rescan_of_folder s t true hfolder
  rw [hconfig] at hsession₀ htree₀ hresult₀
  have hmodules := updated_eq_forced I₀ I₀.session I.session.ordered
  have htext : cacheText (updated t s.config false s₀.modules) =
      cacheText (updated t s.config true s.modules) := by
    rw [← hmodules, cacheText_withoutHtml]
  have hfault := hresult₀.1 ⟨report, hok⟩
  rw [htext] at htree₀ hfault
  rw [hsession₀, hsession, htree₀, htree]
  exact ⟨hresult.2 hfault, hmodules, rfl, FileTree.fileAt?_write hfault⟩

/-- **Rescans without force serve no outdated modules.** Where a load or a rescan succeeds, its modules
are those of a forced rescan of the same files, but for rendered pages, and so is its cache. -/
theorem rescan_eq_forced (h : Run config (ClearWay config) past s t)
    {o : Outcome (Except Failure Report)} (ho : o = s.load t ∨ o = s.rescan t false) {report : Report}
    (hok : o.result = .ok report) :
    (∃ forced, (s.rescan t true).result = .ok forced) ∧
      Catalog.mapValues Module.withoutHtml o.session.modules = (s.rescan t true).session.modules ∧
      o.tree = (s.rescan t true).tree ∧
      o.tree.fileAt? (cachePlace config) =
        some (.text (cacheText (s.rescan t true).session.modules)) := by
  have I := inv_run h
  obtain ⟨s₀, I₀, hsession, htree, hresult⟩ : ∃ s₀, Inv config past s₀ t ∧
      o.session = (s₀.rescan t false).session ∧ o.tree = (s₀.rescan t false).tree ∧
      o.result = (s₀.rescan t false).result := by
    rcases ho with rfl | rfl
    · exact ⟨(s.readCache t).1, inv_readCache I, rfl, rfl, rfl⟩
    · exact ⟨s, I, rfl, rfl, rfl⟩
  rw [hsession, htree]
  obtain ⟨hforced, hmodules, htrees, hfile⟩ := rescan_of_inv I₀ I (hresult.symm.trans hok)
  exact ⟨hforced, hmodules, htrees, htrees ▸ hfile⟩

end

/-! ### One module over time -/

/-- An installation with its cache in a folder of its own. -/
def sampleConfig : Config :=
  { root := ⟨"r"⟩, cacheFile := ⟨"r/x/c.json"⟩, extension := "bmx" }

def sampleFolder : String × String :=
  ("a.mod", "b.mod")

def sampleSource : String :=
  "Module a.b\nImport \"../../../x/../help.bmx\"\n"

/-- The installation has one module, whose entry file pulls in another on a way that passes through
the folder of the cache. -/
def sampleTree (addressing : Addressing) : FileTree where
  files := [
    (⟨"r/mod/a.mod/b.mod/b.bmx"⟩, .text sampleSource),
    (⟨"r/help.bmx"⟩, .text "Rem\nbbdoc: Foo\nEnd Rem\nFunction Foo()\nEnd Function\n")]
  addressing

/-- The search that a scan of the module makes. -/
@[irreducible] def sampleSearch (t : FileTree) : Imports.Search :=
  Imports.searchAfter t 1 sampleSource (entry sampleConfig sampleFolder) (moduleOptions sampleConfig)

/-- The module that a scan gives. -/
def sampleModule (t : FileTree) : Module where
  parent := sampleFolder.1
  folderName := sampleFolder.2
  file := entryName sampleConfig sampleFolder.2
  lastModified := time t sampleConfig sampleFolder
  name := (sampleSearch t).outcome.analysis.moduleName
  commands := (sampleSearch t).outcome.analysis.docs
  intro := readIntro t (folderOf sampleConfig sampleFolder.1 sampleFolder.2)

@[simp] theorem lastModified_sampleModule (t : FileTree) :
    (sampleModule t).lastModified = time t sampleConfig sampleFolder := by
  rw [sampleModule]

@[simp] theorem withoutHtml_sampleModule (t : FileTree) :
    (sampleModule t).withoutHtml = sampleModule t :=
  Module.withoutHtml_eq (by rw [sampleModule])

/-- The tree holds the installation and nothing that stands in the way of the cache. -/
structure IsSample (t : FileTree) : Prop where
  folder : t.isFolder sampleConfig.modFolder = true
  single : installed t sampleConfig = [sampleFolder]
  read : t.read (entry sampleConfig sampleFolder) = .ok sampleSource
  finished : (sampleSearch t).stack = []
  unfollowed : cachePlace sampleConfig ∉ (sampleSearch t).outcome.visited
  words : (sampleModule t).InWords

instance (t : FileTree) : Decidable (IsSample t) :=
  decidable_of_iff (t.isFolder sampleConfig.modFolder = true ∧
      installed t sampleConfig = [sampleFolder] ∧
      t.read (entry sampleConfig sampleFolder) = .ok sampleSource ∧
      (sampleSearch t).stack = [] ∧ cachePlace sampleConfig ∉ (sampleSearch t).outcome.visited ∧
      (sampleModule t).InWords)
    ⟨fun ⟨h₁, h₂, h₃, h₄, h₅, h₆⟩ => ⟨h₁, h₂, h₃, h₄, h₅, h₆⟩,
      fun h => ⟨h.folder, h.single, h.read, h.finished, h.unfollowed, h.words⟩⟩

/-- The catalog of one module. -/
def sampleCatalog (m : Module) : Catalog Module :=
  [(keyOf sampleFolder, m)]

@[simp] theorem withoutHtml_sampleCatalog (t : FileTree) :
    Catalog.mapValues Module.withoutHtml (sampleCatalog (sampleModule t)) =
      sampleCatalog (sampleModule t) := by
  simp [sampleCatalog, Catalog.mapValues]

theorem ordered_sampleCatalog (m : Module) : Catalog.Ordered (sampleCatalog m) :=
  List.pairwise_singleton _ _

/-- The tree after the first load. -/
def sampleLoaded (t : FileTree) : FileTree :=
  (t.write sampleConfig.cacheFile (cacheText (sampleCatalog (sampleModule t)))).tree

/-- The session after the first load. -/
def sampleSession (t : FileTree) : Session :=
  { config := sampleConfig, modules := sampleCatalog (sampleModule t) }

section
variable {t : FileTree}

theorem IsSample.analyzeFile (h : IsSample t) :
    Imports.analyzeFile t (entry sampleConfig sampleFolder) (moduleOptions sampleConfig) =
      .ok (sampleSearch t).outcome := by
  have hend := h.finished
  rw [sampleSearch] at hend ⊢
  exact Imports.analyzeFile_of_searchAfter h.read rfl hend

theorem IsSample.scanned? (h : IsSample t) :
    scanned? t sampleConfig sampleFolder = some (sampleModule t) := by
  rw [scanned?_eq, h.analyzeFile]
  simp only [Except.toOption, Option.map_some, Imports.Outcome.findings, sampleModule]

theorem IsSample.regular (h : IsSample t) : Regular sampleConfig t := by
  have houtside : ¬sampleConfig.modFolder.normalize.components <+:
      (cachePlace sampleConfig).components := by decide
  constructor
  · exact houtside
  · exact fun f hf => not_above_entry houtside hf (by decide)
  · rw [h.single, List.forall_mem_singleton]
    intro o ho
    rw [h.analyzeFile] at ho
    cases ho
    exact h.unfollowed
  · rw [h.single, List.forall_mem_singleton]
    intro m hm
    rw [h.scanned?] at hm
    cases hm
    exact h.words

theorem IsSample.rescan (h : IsSample t) (force : Bool) {modules : Catalog Module}
    (hordered : Catalog.Ordered modules) {m : Module}
    (hm : refresh t sampleConfig force sampleFolder (modules.find? (keyOf sampleFolder)) = some m) :
    let o := Session.rescan { config := sampleConfig, modules } t force
    let written := t.write sampleConfig.cacheFile (cacheText (sampleCatalog m))
    o.session = { config := sampleConfig, modules := sampleCatalog m } ∧ o.tree = written.tree ∧
      ((∃ report, o.result = .ok report) ↔ written.fault = none) := by
  have hupdated : updated t sampleConfig force modules = sampleCatalog m := by
    rw [updated_of_single h.single hordered, hm]
    rfl
  have hrescan := rescan_of_folder { config := sampleConfig, modules } t force h.folder
  simp only [hupdated] at hrescan
  exact hrescan

/-- The first load, with no cache to read. -/
theorem IsSample.load (h : IsSample t) (hnone : t.read sampleConfig.cacheFile = .error .notFound) :
    (Session.load { config := sampleConfig } t).session = sampleSession t ∧
      (Session.load { config := sampleConfig } t).tree = sampleLoaded t := by
  have hread : (Session.readCache { config := sampleConfig } t).1 = { config := sampleConfig } := by
    simp only [readCache, hnone]
  obtain ⟨hsession, htree, -⟩ := h.rescan false Catalog.ordered_nil h.scanned?
  simp only [Session.load, hread]
  exact ⟨hsession, htree⟩

/-- A load that finds the cache of an earlier tree and keeps its module. -/
theorem IsSample.load_cached (h : IsSample t) {u : FileTree} (hu : (sampleModule u).InWords)
    (hread : t.read sampleConfig.cacheFile = .ok (cacheText (sampleCatalog (sampleModule u))))
    (htime : time u sampleConfig sampleFolder = time t sampleConfig sampleFolder)
    (hfault : (t.write sampleConfig.cacheFile (cacheText (sampleCatalog (sampleModule u)))).fault =
      none) :
    (Session.load { config := sampleConfig } t).session = sampleSession u ∧
      ∃ report, (Session.load { config := sampleConfig } t).result = .ok report := by
  have hwords : ∀ e ∈ sampleCatalog (sampleModule u), e.2.InWords := List.forall_mem_singleton.2 hu
  have hcache : (Session.readCache { config := sampleConfig } t).1 = sampleSession u := by
    have hback := readCache_of_read (s := { config := sampleConfig }) hread
      (ordered_sampleCatalog _) hwords
    rw [hback, withoutHtml_sampleCatalog, sampleSession]
  have hrefresh : refresh t sampleConfig false sampleFolder
      ((sampleCatalog (sampleModule u)).find? (keyOf sampleFolder)) = some (sampleModule u) := by
    simp [refresh, sampleCatalog, Catalog.find?_cons, Module.isStale, htime]
  obtain ⟨hsession, -, hresult⟩ := h.rescan false (ordered_sampleCatalog _) hrefresh
  simp only [Session.load, hcache]
  exact ⟨hsession, hresult.2 hfault⟩

/-- A rescan of a session that holds the module as it was at another time. -/
theorem IsSample.rescan_stale (h : IsSample t) {u : FileTree}
    (htime : time u sampleConfig sampleFolder ≠ time t sampleConfig sampleFolder)
    (hfault : (t.write sampleConfig.cacheFile (cacheText (sampleCatalog (sampleModule t)))).fault =
      none) :
    ∃ report, ((sampleSession u).rescan t false).result = .ok report := by
  have hrefresh : refresh t sampleConfig false sampleFolder
      ((sampleCatalog (sampleModule u)).find? (keyOf sampleFolder)) = some (sampleModule t) := by
    simp [refresh, sampleCatalog, Catalog.find?_cons, Module.isStale, htime, h.scanned?]
  exact (h.rescan false (ordered_sampleCatalog _) hrefresh).2.2.2 hfault

end

theorem isSample_sampleTree (addressing : Addressing) : IsSample (sampleTree addressing) := by
  cases addressing <;> decide +kernel

theorem sampleLoaded_run {ready : FileTree → Prop} (addressing : Addressing)
    (hready : ready (sampleTree addressing)) :
    Run sampleConfig ready [sampleTree addressing] (sampleSession (sampleTree addressing))
      (sampleLoaded (sampleTree addressing)) := by
  have hsample := isSample_sampleTree addressing
  have hnone : (sampleTree addressing).fileAt? (cachePlace sampleConfig) = none := by
    cases addressing <;> decide
  have hread : (sampleTree addressing).read sampleConfig.cacheFile = .error .notFound := by
    cases addressing <;> decide
  have hload := (Run.start hnone hsample.regular).load hready
  obtain ⟨hsession, htree⟩ := hsample.load hread
  rwa [hsession, htree] at hload

/-- The installation after an edit: another entry is pulled in, and the entry file was touched. -/
def sampleEdited : FileTree :=
  ((sampleLoaded (sampleTree .normalForm)).putFile ⟨"r/help.bmx"⟩
    (.text "Rem\nbbdoc: Bar\nEnd Rem\nFunction Bar()\nEnd Function\n")).setTime
    ⟨"r/mod/a.mod/b.mod/b.bmx"⟩ 5

theorem isSample_sampleEdited : IsSample sampleEdited := by decide +kernel

theorem time_ne_sampleEdited : ∀ u ∈ [sampleLoaded (sampleTree .normalForm), sampleTree .normalForm],
    time u sampleConfig sampleFolder ≠ time sampleEdited sampleConfig sampleFolder := by
  decide

/-- A load and an edit. -/
theorem sampleEdited_run : Run sampleConfig (ClearWay sampleConfig)
    [sampleLoaded (sampleTree .normalForm), sampleTree .normalForm]
    (sampleSession (sampleTree .normalForm)) sampleEdited := by
  have hclear : ClearWay sampleConfig (sampleTree .normalForm) :=
    ⟨(isSample_sampleTree .normalForm).regular, fun _ => rfl⟩
  have hcache : sampleEdited.fileAt? (cachePlace sampleConfig) =
      (sampleLoaded (sampleTree .normalForm)).fileAt? (cachePlace sampleConfig) :=
    (FileTree.fileAt?_putFile _ _ _ _).trans (if_neg (by decide))
  refine (sampleLoaded_run .normalForm hclear).edit ⟨hcache, isSample_sampleEdited.regular, ?_⟩
  rw [FreshTimes, isSample_sampleEdited.single, List.forall_mem_singleton]
  exact fun _ u hu _ => time_ne_sampleEdited u hu

theorem sampleEdited_rescan :
    (∃ report, ((sampleSession (sampleTree .normalForm)).rescan sampleEdited false).result =
        .ok report) ∧
      Catalog.mapValues Module.withoutHtml
          ((sampleSession (sampleTree .normalForm)).rescan sampleEdited false).session.modules =
        ((sampleSession (sampleTree .normalForm)).rescan sampleEdited true).session.modules ∧
      ((sampleSession (sampleTree .normalForm)).rescan sampleEdited false).tree =
        ((sampleSession (sampleTree .normalForm)).rescan sampleEdited true).tree := by
  obtain ⟨report, hok⟩ := isSample_sampleEdited.rescan_stale
    (time_ne_sampleEdited (sampleTree .normalForm) (by simp)) (by decide +kernel)
  obtain ⟨-, hmodules, htree, -⟩ := rescan_eq_forced sampleEdited_run (Or.inr rfl) hok
  exact ⟨⟨report, hok⟩, hmodules, htree⟩

theorem isSample_sampleLoaded : IsSample (sampleLoaded (sampleTree .stepwise)) := by decide +kernel

/-- **A new folder can make a file appear.** The first load makes the folder of the cache, and the entry
file pulls in another on a way through that folder. The load after it keeps the module that was scanned
before the way was there. -/
theorem load_after_new_folder :
    Run sampleConfig (fun _ => True) [sampleTree .stepwise] { config := sampleConfig }
        (sampleLoaded (sampleTree .stepwise)) ∧
      (∃ report, (Session.load { config := sampleConfig }
        (sampleLoaded (sampleTree .stepwise))).result = .ok report) ∧
      Catalog.mapValues Module.withoutHtml (Session.load { config := sampleConfig }
          (sampleLoaded (sampleTree .stepwise))).session.modules ≠
        (Session.rescan { config := sampleConfig }
          (sampleLoaded (sampleTree .stepwise)) true).session.modules := by
  obtain ⟨hsession, hok⟩ := isSample_sampleLoaded.load_cached
    (isSample_sampleTree .stepwise).words (by decide +kernel) (by decide +kernel)
    (by decide +kernel)
  obtain ⟨hforced, -, -⟩ :=
    isSample_sampleLoaded.rescan true Catalog.ordered_nil isSample_sampleLoaded.scanned?
  have hdiffer : (sampleModule (sampleTree .stepwise)).commands ≠
      (sampleModule (sampleLoaded (sampleTree .stepwise))).commands := by decide +kernel
  refine ⟨(sampleLoaded_run .stepwise trivial).restart, hok, ?_⟩
  rw [hsession, hforced, sampleSession, withoutHtml_sampleCatalog]
  intro heq
  simp only [sampleCatalog, List.cons.injEq, Prod.mk.injEq, and_true, true_and] at heq
  exact hdiffer (congrArg Module.commands heq)

end BlitzDoc.Session
