import BlitzDoc.Proofs.FileTree.Without
import BlitzDoc.Proofs.Session.Restart

/-!
# What failures leave behind

An operation that fails leaves a state that can be told. Where there is no folder of modules, a rescan
changes nothing at all. Where the cache cannot be written, the rescan is done but for the cache: the
modules are what they would be with any other cache (`updated_of_view`), and no other file has changed.
The cache itself is as it was, unless there was room for the start of a new one only, which does not
decode. A command index that cannot be read leaves the old one.

A cache that does not decode is as good as none (`JunkCache.load_eq`): a fresh session starts without
modules either way, no scan comes by the cache, and it is written over in the end. Only a cache that
is itself the entry file of a module would be missed, and one that is locked could not be written over.
The main statement is `failures_leave`.
-/

namespace BlitzDoc.Session

/-! ## Rescans whose cache cannot be written -/

section
variable {t t' : FileTree} {config : Config} {force : Bool} {modules : Catalog Module}

theorem installed_iff_of_view {f : String × String} (h : view t' config f = view t config f) :
    f ∈ installed t' config ↔ f ∈ installed t config := by
  unfold view at h
  by_cases hf' : f ∈ installed t' config <;> by_cases hf : f ∈ installed t config <;> simp_all

/-- **A rescan depends on what is to be seen of the module folders.** -/
theorem updated_of_view (hordered : Catalog.Ordered modules)
    (hview : ∀ f, view t' config f = view t config f) :
    updated t' config force modules = updated t config force modules := by
  refine Catalog.ext (ordered_updated hordered) (ordered_updated hordered) fun key => ?_
  by_cases hkey : ∃ f ∈ installed t config, keyOf f = key
  · obtain ⟨f, hf, rfl⟩ := hkey
    have hf' := (installed_iff_of_view (hview f)).2 hf
    obtain ⟨htime, hscanned⟩ : time t' config f = time t config f ∧
        scanned? t' config f = scanned? t config f := by
      simpa [view, hf, hf'] using hview f
    rw [find?_updated hf', find?_updated hf, refresh, refresh, htime, hscanned]
  · push Not at hkey
    rw [find?_updated_eq_none hkey, find?_updated_eq_none fun f hf' =>
      hkey f ((installed_iff_of_view (hview f)).1 hf')]

/-- Where the cache is makes no difference to the modules. -/
theorem updated_cacheFile (cacheFile : Path) :
    updated t { config with cacheFile } force modules = updated t config force modules := rfl

end

/-- A file holds the start of a cache: some of its bytes, but not all of them. -/
def IsStart (modules : Catalog Module) (content : Content) : Prop :=
  ∃ n < (cacheText modules).utf8ByteSize, content = .cut (cacheText modules) n

/-- **The start of a cache does not decode.** -/
theorem IsStart.decode {modules : Catalog Module} {content : Content} (h : IsStart modules content)
    {text : String} (htext : content = .text text) : (Json.read? text).bind Cache.ofJson? = none := by
  obtain ⟨n, hn, rfl⟩ := h
  exact decode_cut hn htext

/-- **A rescan whose cache cannot be written** is done but for the cache, which is as it was or holds the
start of the new one. -/
theorem rescan_of_fault {s : Session} {t : FileTree} {force : Bool}
    (hfolder : t.isFolder s.config.modFolder = true) {fault : Fault}
    (hfault : (t.write s.config.cacheFile (cacheText (s.rescan t force).session.modules)).fault =
      some fault) :
    (s.rescan t force).result = .error (.access s.config.cacheFile fault) ∧
      (s.rescan t force).session = { s with modules := updated t s.config force s.modules } ∧
      (∀ q, q ≠ cachePlace s.config → (s.rescan t force).tree.fileAt? q = t.fileAt? q) ∧
      ((s.rescan t force).tree.fileAt? (cachePlace s.config) = t.fileAt? (cachePlace s.config) ∨
        fault = .noSpace ∧ ∃ content, IsStart (s.rescan t force).session.modules content ∧
          (s.rescan t force).tree.fileAt? (cachePlace s.config) = some content) := by
  obtain ⟨hsession, htree, -⟩ := rescan_of_folder s t force hfolder
  rw [hsession] at hfault ⊢
  rw [htree]
  have hmade := FileTree.moreFolders_makeWay t s.config.cacheFile
  refine ⟨?_, rfl, ?_⟩
  · rw [rescan_eq s t force hfolder]
    simp only [hfault]
  · rcases FileTree.write_cases t s.config.cacheFile
      (cacheText (updated t s.config force s.modules)) with ⟨hrefused, -⟩ | ⟨content, hwritten⟩
    · rw [hrefused]
      exact ⟨fun q _ => hmade.fileAt?_eq q, .inl (hmade.fileAt?_eq _)⟩
    · refine ⟨fun q hq => ?_, .inr ?_⟩
      · rw [hwritten.filled.fileAt?_eq, ← cachePlace, if_neg hq, hmade.fileAt?_eq]
      · rcases hwritten.outcome with ⟨hnone, -⟩ | ⟨hfull, n, hn, rfl⟩
        · rw [hnone] at hfault
          cases hfault
        · rw [hfull] at hfault
          refine ⟨(Option.some.inj hfault).symm, _, ⟨n, hn, rfl⟩, ?_⟩
          rw [hwritten.filled.fileAt?_eq, cachePlace, if_pos rfl]

/-! ## Caches that do not decode -/

/-- The cache is a file that does not decode. It lies outside of the folder of the modules, no scan comes
by it, and it can be written over where it could be made anew. -/
structure JunkCache (config : Config) (t : FileTree) : Prop where
  file : t.isFile config.cacheFile = true
  junk : ∀ text, t.read config.cacheFile = .ok text → (Json.read? text).bind Cache.ofJson? = none
  /-- Nothing lies below it. -/
  leaf : (t.withoutFile (cachePlace config)).folderAt (cachePlace config) = false
  outside : ¬CacheInside config
  unfollowed : ∀ f ∈ folders t config,
    ¬Imports.Follows t (entry config f) (moduleOptions config) (cachePlace config)
  /-- It is no entry file, as it could be with a slash in the extension. -/
  entry : '/' ∉ config.extension.toList ∨
    ∀ f ∈ folders t config, (Session.entry config f).normalize ≠ cachePlace config
  /-- It takes a text where the folder around it takes a new file. -/
  locked : cachePlace config ∈ t.locked ↔ FileTree.outer (cachePlace config) ∈ t.locked

section
variable {t : FileTree} {config : Config}

/-- What a rescan of a session without modules holds for a folder is what a scan of it gives. -/
theorem find?_updated_nil (force : Bool) {f : String × String} (hf : f ∈ folders t config) :
    (updated t config force []).find? (keyOf f) = scanned? t config f := by
  by_cases hinstalled : f ∈ installed t config
  · rw [find?_updated hinstalled]
    simp [refresh, Catalog.find?]
  · have hnone : scanned? t config f = none := by
      by_contra hsome
      obtain ⟨text, hread⟩ := isSome_scanned?_iff.1 (Option.isSome_iff_ne_none.2 hsome)
      exact hinstalled (mem_installed.2 ⟨hf, Imports.exists_of_read hread⟩)
    rw [hnone]
    refine find?_updated_eq_none fun g hg hkey => hinstalled ?_
    obtain rfl := eq_of_keyOf (mem_installed.1 hg).1 hf hkey
    exact hg

/-- A session without modules has nothing to keep and nothing to drop. -/
theorem reportOf_nil (force : Bool) :
    reportOf t config force [] = { scanned := (updated t config force []).length } := by
  have hreused : (reportOf t config force []).reused = 0 :=
    List.countP_eq_zero.2 fun f _ => by simp [isReused, Catalog.find?]
  have hlength := length_updated t config force Catalog.ordered_nil
  have hscanned : (reportOf t config force []).scanned = (updated t config force []).length := by
    omega
  calc reportOf t config force []
      = { scanned := (reportOf t config force []).scanned
          reused := (reportOf t config force []).reused } := rfl
    _ = { scanned := (updated t config force []).length } := by rw [hscanned, hreused]

/-- A cache that does not decode, or is not there, leaves a fresh session as it is. -/
theorem readCache_fresh (h : ∀ text, t.read config.cacheFile = .ok text →
    (Json.read? text).bind Cache.ofJson? = none) :
    (Session.readCache { config } t).1 = { config } := by
  cases hread : t.read config.cacheFile with
  | error fault => simp only [readCache, hread]
  | ok text => simp only [readCache, hread, h text hread]

/-- Without its file, there is nothing to read at a place. -/
theorem toOption_read_withoutFile {p q : Path} (hq : q.normalize = p.normalize) :
    ((t.withoutFile p.normalize).read q).toOption = none := by
  cases hread : (t.withoutFile p.normalize).read q with
  | error fault => rfl
  | ok text =>
    have hfile := FileTree.fileAt?_of_read hread
    rw [FileTree.fileAt?_withoutFile, if_pos hq] at hfile
    cases hfile

/-- Trees that differ in one file, but in no time, agree on the time of a folder whose entry file can be
read. -/
theorem time_of_read {t' : FileTree} {place : Path} (h : FileTree.SameBut place t t')
    (htimes : t'.times = t.times)
    (houtside : ¬config.modFolder.normalize.components <+: place.components)
    {f : String × String} (hf : f ∈ folders t config) {text text' : String}
    (hread : t.read (entry config f) = .ok text) (hread' : t'.read (entry config f) = .ok text') :
    time t' config f = time t config f := by
  have hfolder := h.toOption_modified (not_above_folder houtside hf)
  have hfile : t'.modified (entry config f) = t.modified (entry config f) := by
    rw [FileTree.modified_eq_of_exists (Imports.exists_of_read hread'),
      FileTree.modified_eq_of_exists (Imports.exists_of_read hread), htimes]
  simp only [time, lastModified, hfolder]
  rw [← entry, hfile]

end

namespace JunkCache

variable {t : FileTree} {config : Config} (h : JunkCache config t)

include h in
theorem sameBut : FileTree.SameBut (cachePlace config) t (t.withoutFile (cachePlace config)) :=
  FileTree.sameBut_withoutFile h.file h.leaf

include h in
theorem isFolder_eq : (t.withoutFile (cachePlace config)).isFolder config.modFolder =
    t.isFolder config.modFolder := by
  by_cases hbelow : config.modFolder.normalize.components <+: (cachePlace config).components
  · -- the cache stands in the place of the folder
    have hplace : cachePlace config = config.modFolder.normalize := by
      by_contra hne
      exact h.outside ⟨hbelow, hne⟩
    have hnone {u : FileTree} (hu : u.folderAt (cachePlace config) = false) :
        u.isFolder config.modFolder = false := by
      rw [Bool.eq_false_iff]
      intro hfolder
      rw [hplace, FileTree.folderAt_of_isFolder hfolder] at hu
      cases hu
    rw [hnone h.leaf, hnone (FileTree.folderAt_eq_false (FileTree.of_isFile h.file).1)]
  · exact h.sameBut.isFolder_eq hbelow

section
variable (hfolder : t.isFolder config.modFolder = true)

include h hfolder in
/-- Where there is a folder of modules, the cache is not in its place. -/
theorem not_above : ¬config.modFolder.normalize.components <+: (cachePlace config).components := by
  intro hbelow
  apply h.outside
  refine ⟨hbelow, ?_⟩
  intro hplace
  have hfree := FileTree.folderAt_eq_false (FileTree.of_isFile h.file).1
  rw [← cachePlace, hplace, FileTree.folderAt_of_isFolder hfolder] at hfree
  cases hfree

include h hfolder in
/-- **A scan gives the same without the cache.** -/
theorem scanned?_eq {f : String × String} (hf : f ∈ folders t config) :
    scanned? (t.withoutFile (cachePlace config)) config f = scanned? t config f := by
  have houtside := h.not_above hfolder
  have hsame := h.sameBut
  have hne : (Session.entry config f).normalize ≠ cachePlace config := by
    rcases h.entry with hplain | hentry
    · exact FileTree.SameBut.ne_of_not_above (not_above_entry houtside hf hplain)
    · exact hentry f hf
  have hfindings := Imports.analyzeFile_of_unfollowed (fun q hq => hsame.toOption_read hq) hne
    (fun q hq => toOption_read_withoutFile hq) (h.unfollowed f hf)
  have hread := hsame.toOption_read hne
  rw [Session.scanned?_eq, Session.scanned?_eq, hfindings,
    readIntro_sameBut hsame (not_above_folder houtside hf)]
  cases htext : t.read (Session.entry config f) with
  | error fault =>
    rw [Imports.toOption_analyzeFile, htext]
    rfl
  | ok text =>
    rw [htext] at hread
    have htext' := Imports.toOption_eq_some_iff.1 hread
    rw [time_of_read hsame rfl houtside hf htext htext']

include h hfolder in
theorem updated_eq (force : Bool) : updated (t.withoutFile (cachePlace config)) config force [] =
    updated t config force [] := by
  have hfolders : folders (t.withoutFile (cachePlace config)) config = folders t config :=
    folders_sameBut h.sameBut (h.not_above hfolder)
  refine Catalog.ext (ordered_updated Catalog.ordered_nil) (ordered_updated Catalog.ordered_nil)
    fun key => ?_
  by_cases hkey : ∃ f ∈ folders t config, keyOf f = key
  · obtain ⟨f, hf, rfl⟩ := hkey
    rw [find?_updated_nil force hf, find?_updated_nil force (hfolders ▸ hf), h.scanned?_eq hfolder hf]
  · push Not at hkey
    rw [find?_updated_eq_none fun f hf => hkey f (mem_installed.1 hf).1,
      find?_updated_eq_none fun f hf => hkey f (hfolders ▸ (mem_installed.1 hf).1)]

end

include h in
/-- **A cache that does not decode is as good as none.** -/
theorem load_eq :
    let without := Session.load { config } (t.withoutFile (cachePlace config))
    (Session.load { config } t).result = without.result ∧
      (Session.load { config } t).session = without.session ∧
      ∀ report, (Session.load { config } t).result = .ok report →
        ∀ q, (Session.load { config } t).tree.fileAt? q = without.tree.fileAt? q := by
  have hfresh : (Session.readCache { config } t).1 = { config } := readCache_fresh h.junk
  have hfresh' : (Session.readCache { config } (t.withoutFile (cachePlace config))).1 = { config } := by
    refine readCache_fresh fun text hread => ?_
    have hnone := toOption_read_withoutFile (t := t) (p := config.cacheFile) rfl
    rw [← cachePlace, hread] at hnone
    cases hnone
  have hisFolder := h.isFolder_eq
  intro without
  simp only [without, Session.load, hfresh, hfresh']
  cases hfolder : t.isFolder config.modFolder with
  | false =>
    rw [hfolder] at hisFolder
    rw [rescan_of_no_folder { config } t false hfolder,
      rescan_of_no_folder { config } (t.withoutFile (cachePlace config)) false hisFolder]
    exact ⟨rfl, rfl, fun report hok => by cases hok⟩
  | true =>
    rw [hfolder] at hisFolder
    have hupdated := h.updated_eq hfolder false
    have hwrite (text : String) := FileTree.write_withoutFile h.file h.leaf h.locked text
    obtain ⟨hsession, htree, -⟩ := rescan_of_folder { config } t false hfolder
    obtain ⟨hsession', htree', -⟩ :=
      rescan_of_folder { config } (t.withoutFile (cachePlace config)) false hisFolder
    have hresult := rescan_result (s := { config }) false hfolder Catalog.ordered_nil
    have hresult' := rescan_result (s := { config }) false hisFolder Catalog.ordered_nil
    rw [reportOf_nil] at hresult
    rw [reportOf_nil, hupdated, cachePlace, (hwrite _).1] at hresult'
    simp only [hupdated] at hsession' htree'
    refine ⟨hresult.trans hresult'.symm, hsession.trans hsession'.symm, fun report hok q => ?_⟩
    rw [hresult] at hok
    split at hok
    · cases hok
    · rename_i hfault
      rw [htree, htree']
      exact ((hwrite _).2 hfault q).symm

end JunkCache

/-! ## The command index -/

/-- A command index that cannot be read changes nothing; one that is not there has not been built. -/
theorem loadIndex_of_read_error {s : Session} {t : FileTree} {fault : Fault}
    (h : t.read s.config.indexFile = .error fault) :
    s.loadIndex t =
      { result := .error (if t.exists? s.config.indexFile then .access s.config.indexFile fault
          else .indexNotBuilt s.config.indexFile)
        session := s, tree := t } := by
  cases hexists : t.exists? s.config.indexFile with
  | false => simp [loadIndex, hexists]
  | true => simp [loadIndex, hexists, h]

/-- The command index cannot be loaded exactly if it cannot be read. -/
theorem loadIndex_eq_error_iff (s : Session) (t : FileTree) (e : Failure) :
    (s.loadIndex t).result = .error e ↔ ∃ fault, t.read s.config.indexFile = .error fault ∧
      e = if t.exists? s.config.indexFile then .access s.config.indexFile fault
        else .indexNotBuilt s.config.indexFile := by
  cases hread : t.read s.config.indexFile with
  | ok text => simp [loadIndex, Imports.exists_of_read hread, hread]
  | error fault =>
    rw [loadIndex_of_read_error hread]
    simp [eq_comm (b := e)]

/-! ## Failures -/

/-- A rescan that finds no folder of modules stops before it has done anything. -/
theorem rescan_of_sourceNotFound {s : Session} {t : FileTree} {force : Bool} {path : Path}
    (h : (s.rescan t force).result = .error (.sourceNotFound path)) :
    (s.rescan t force).session = s ∧ (s.rescan t force).tree = t := by
  cases hfolder : t.isFolder s.config.modFolder with
  | false => rw [rescan_of_no_folder s t force hfolder]; exact ⟨rfl, rfl⟩
  | true =>
    rw [rescan_eq s t force hfolder] at h
    dsimp only at h
    split at h <;> cases h

/-- **What failures leave behind.** A rescan that finds no folder of modules changes nothing. One whose
cache cannot be written changes no other file and leaves the command index alone, and its modules are
those that any cache would have left, wherever it is, in any tree that shows the same module folders.
The cache is as it was, unless room was short: then it may hold the start of the new one, which does not
decode. A command index that cannot be read leaves everything as it was. A fresh session that finds a
cache that does not decode loads the same modules with the same result, and leaves the same files, as
one that finds none. -/
theorem failures_leave {s : Session} {t : FileTree} (hordered : Catalog.Ordered s.modules) :
    (∀ force path, (s.rescan t force).result = .error (.sourceNotFound path) →
        (s.rescan t force).session = s ∧ (s.rescan t force).tree = t) ∧
      (∀ force fault, t.isFolder s.config.modFolder = true →
        (t.write s.config.cacheFile (cacheText (s.rescan t force).session.modules)).fault = some fault →
        (s.rescan t force).result = .error (.access s.config.cacheFile fault) ∧
          (s.rescan t force).session.help = s.help ∧
          (∀ q, q ≠ cachePlace s.config → (s.rescan t force).tree.fileAt? q = t.fileAt? q) ∧
          ((s.rescan t force).tree.fileAt? (cachePlace s.config) = t.fileAt? (cachePlace s.config) ∨
            fault = .noSpace ∧ ∃ content, IsStart (s.rescan t force).session.modules content ∧
              (s.rescan t force).tree.fileAt? (cachePlace s.config) = some content ∧
              ∀ text, content = .text text → (Json.read? text).bind Cache.ofJson? = none) ∧
          ∀ cacheFile t', t'.isFolder s.config.modFolder = true →
            (∀ f, view t' s.config f = view t s.config f) →
            (Session.rescan { s with config := { s.config with cacheFile } } t' force).session.modules =
              (s.rescan t force).session.modules) ∧
      (∀ e, ((s.loadIndex t).result = .error e ↔ ∃ fault, t.read s.config.indexFile = .error fault ∧
          e = if t.exists? s.config.indexFile then .access s.config.indexFile fault
            else .indexNotBuilt s.config.indexFile) ∧
        ((s.loadIndex t).result = .error e →
          (s.loadIndex t).session = s ∧ (s.loadIndex t).tree = t)) ∧
      (JunkCache s.config t →
        let junk := Session.load { config := s.config } t
        let without := Session.load { config := s.config } (t.withoutFile (cachePlace s.config))
        junk.result = without.result ∧ junk.session.modules = without.session.modules ∧
          ∀ report, junk.result = .ok report → ∀ q, junk.tree.fileAt? q = without.tree.fileAt? q) := by
  refine ⟨fun force path h => rescan_of_sourceNotFound h, ?_, ?_, ?_⟩
  · intro force fault hfolder hfault
    obtain ⟨hresult, hsession, hfiles, hcache⟩ := rescan_of_fault hfolder hfault
    refine ⟨hresult, by rw [hsession], hfiles, ?_, fun cacheFile t' hfolder' hview => ?_⟩
    · refine hcache.imp_right ?_
      rintro ⟨hfull, content, hstart, hleft⟩
      exact ⟨hfull, content, hstart, hleft, fun text htext => hstart.decode htext⟩
    have hfolder'' : t'.isFolder { s.config with cacheFile }.modFolder = true := hfolder'
    obtain ⟨hother, -, -⟩ :=
      rescan_of_folder { s with config := { s.config with cacheFile } } t' force hfolder''
    rw [hother, hsession]
    exact (updated_cacheFile cacheFile).trans (updated_of_view hordered hview)
  · refine fun e => ⟨loadIndex_eq_error_iff s t e, fun herror => ?_⟩
    obtain ⟨fault, hread, -⟩ := (loadIndex_eq_error_iff s t e).1 herror
    rw [loadIndex_of_read_error hread]
    exact ⟨rfl, rfl⟩
  · intro hjunk
    obtain ⟨hresult, hsession, hfiles⟩ := hjunk.load_eq
    exact ⟨hresult, by rw [hsession], hfiles⟩

/-- A cache that does not decode, beside module folders of all kinds. -/
def junkTree : FileTree :=
  mixedTree.putFile ⟨"root/c.json"⟩ (.text "no cache")

/-- A folder in the place of the cache. -/
def blockedTree : FileTree :=
  mixedTree.putFile ⟨"root/c.json/x"⟩ (.text "")

/-- No entry file pulls in another file. -/
theorem unfollowed_of_no_targets {t : FileTree} {config : Config}
    (h : ∀ f ∈ folders t config, ((t.read (entry config f)).toOption.all fun source =>
      (Source.scan source (entry config f) (moduleOptions config)).targets.isEmpty) = true)
    (place : Path) :
    ∀ f ∈ folders t config, ¬Imports.Follows t (entry config f) (moduleOptions config) place := by
  intro f hf
  refine Imports.not_follows_of_no_targets fun source hread => ?_
  simpa [hread, Except.toOption] using h f hf

theorem junkCache_junkTree : JunkCache mixedSession.config junkTree where
  file := by decide
  junk text hread := by
    have hjunk : junkTree.read mixedSession.config.cacheFile = .ok "no cache" := by decide
    rw [hjunk] at hread
    cases hread
    decide
  leaf := by decide
  outside := by decide
  unfollowed := unfollowed_of_no_targets (by decide +kernel) _
  entry := .inl (by decide)
  locked := by decide

theorem failures_leave_mixed :
    (mixedSession.rescan {} true).session = mixedSession ∧
      (mixedSession.rescan blockedTree false).result =
        .error (.access mixedSession.config.cacheFile .isFolder) ∧
      (Session.rescan { mixedSession with
          config := { mixedSession.config with cacheFile := ⟨"other.json"⟩ } }
        blockedTree false).session.modules = (mixedSession.rescan blockedTree false).session.modules ∧
      (mixedSession.loadIndex mixedTree).session = mixedSession ∧
      (Session.load { config := mixedSession.config } junkTree).result =
        (Session.load { config := mixedSession.config } mixedTree).result := by
  have hordered := ordered_mixedSession
  obtain ⟨hnone, -⟩ := failures_leave (t := {}) hordered
  obtain ⟨-, hblocked, -⟩ := failures_leave (t := blockedTree) hordered
  obtain ⟨-, -, hindex, -⟩ := failures_leave (t := mixedTree) hordered
  obtain ⟨-, -, -, hjunk⟩ := failures_leave (t := junkTree) hordered
  have hfolder : blockedTree.isFolder mixedSession.config.modFolder = true := by decide +kernel
  obtain ⟨hresult, -, -, -, hmodules⟩ := hblocked false .isFolder hfolder (by decide +kernel)
  refine ⟨(hnone true ⟨"root/mod"⟩ (by decide +kernel)).1, hresult, ?_, ?_, ?_⟩
  · exact hmodules ⟨"other.json"⟩ blockedTree hfolder fun f => rfl
  · exact ((hindex (.indexNotBuilt mixedSession.config.indexFile)).2 (by decide +kernel)).1
  · exact (hjunk junkCache_junkTree).1

/-- The cache of `slashConfig`, which is also the entry file of a module. -/
def slashJunkTree : FileTree :=
  slashTree.putFile ⟨"root/c.json"⟩ (.text "no cache")

/-- Settings with a plain extension. -/
def plainConfig : Config :=
  { slashConfig with extension := "bmx" }

/-- The cache does not decode, and cannot be written. -/
def lockedJunkTree : FileTree :=
  { slashJunkTree with locked := [⟨"root/c.json"⟩] }

/-- There is room for the start of a cache only. -/
def fullTree : FileTree :=
  { slashJunkTree with room := some 1 }

/-- **What a failure can do to the cache, and the cache to a load.** A cache that is the entry file of a
module is missed: it does not decode, lies outside of the folder of the modules and is pulled in by no
module, but with it there is a module to scan, and without it there is none. A cache that is locked fails
the load that would succeed without it. A write that runs out of room leaves another cache than it
found. -/
theorem load_misses_junk :
    slashJunkTree.read slashConfig.cacheFile = .ok "no cache" ∧
      (Json.read? "no cache").bind Cache.ofJson? = none ∧ ¬CacheInside slashConfig ∧
      (∀ f ∈ folders slashJunkTree slashConfig, ¬Imports.Follows slashJunkTree (entry slashConfig f)
        (moduleOptions slashConfig) (cachePlace slashConfig)) ∧
      (Session.load { config := slashConfig } slashJunkTree).result =
        .ok { scanned := 1, reused := 0, removed := 0 } ∧
      (Session.load { config := slashConfig }
          (slashJunkTree.withoutFile (cachePlace slashConfig))).result =
        .ok { scanned := 0, reused := 0, removed := 0 } ∧
      (Session.load { config := plainConfig } lockedJunkTree).result =
        .error (.access plainConfig.cacheFile .denied) ∧
      (Session.load { config := plainConfig }
          (lockedJunkTree.withoutFile (cachePlace plainConfig))).result =
        .ok { scanned := 0, reused := 0, removed := 0 } ∧
      (Session.rescan { config := plainConfig } fullTree false).result =
        .error (.access plainConfig.cacheFile .noSpace) ∧
      (Session.rescan { config := plainConfig } fullTree false).tree.fileAt? (cachePlace plainConfig) ≠
        fullTree.fileAt? (cachePlace plainConfig) := by
  refine ⟨by decide +kernel, by decide +kernel, by decide +kernel, ?_, by decide +kernel,
    by decide +kernel, by decide +kernel, by decide +kernel, by decide +kernel, by decide +kernel⟩
  exact unfollowed_of_no_targets (by decide +kernel) _

end BlitzDoc.Session
