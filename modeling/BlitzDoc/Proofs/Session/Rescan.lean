import BlitzDoc.Proofs.Catalog
import BlitzDoc.Proofs.FileTree.Write
import BlitzDoc.Proofs.Session.Folders

/-!
# Rescans

What a rescan leaves behind. It goes through the module folders one by one, and each takes part only
in what is held under its own key (`find?_visit`), so the modules after a rescan are known key by key:
under the key of an installed module folder stands what `refresh` makes of the module that was held
before (`find?_updated`), and there is nothing else (`find?_updated_eq_none`). A forced rescan asks
nothing of the modules held before (`refresh_force`).
-/

namespace BlitzDoc.Session

/-! ## One folder -/

/-- What a rescan makes of the module that is held for a folder. -/
def refresh (t : FileTree) (config : Config) (force : Bool) (f : String × String)
    (held : Option Module) : Option Module :=
  if !force && held.any (fun m => !m.isStale (time t config f)) then held else scanned? t config f

section
variable {t : FileTree} {config : Config} {f : String × String}

theorem refresh_force (held : Option Module) : refresh t config true f held = scanned? t config f :=
  rfl

/-- Without force, a module is kept as it is or scanned. -/
theorem refresh_cases (t : FileTree) (config : Config) (f : String × String) (held : Option Module) :
    (∃ m, held = some m ∧ m.lastModified = time t config f ∧ refresh t config false f held = some m) ∨
      refresh t config false f held = scanned? t config f := by
  unfold refresh
  split
  · rename_i hfresh
    cases held with
    | none => cases hfresh
    | some m => exact Or.inl ⟨m, rfl, by simpa [Module.isStale] using hfresh, rfl⟩
  · exact Or.inr rfl

/-- To come by a folder twice is the same as to come by it once. -/
theorem refresh_refresh (force : Bool) (held : Option Module) :
    refresh t config force f (refresh t config force f held) = refresh t config force f held := by
  cases force with
  | true => rfl
  | false =>
    rcases refresh_cases t config f held with ⟨m, rfl, -, hkept⟩ | hscanned
    · rw [hkept, hkept]
    · rw [hscanned]
      rcases refresh_cases t config f (scanned? t config f) with
        ⟨m, hm, -, hkept⟩ | h
      · rw [hkept, hm]
      · exact h

theorem isFresh_eq (modules : Catalog Module) (key : String) (time : Nat) :
    isFresh modules key time = (modules.find? key).any fun m => !m.isStale time := by
  unfold isFresh
  cases modules.find? key <;> rfl

variable {force : Bool} {p : Progress}

theorem visit_of_no_entry (h : hasEntry t config f = false) :
    (visit t config force p f).modules = p.modules ∧ (visit t config force p f).seen = p.seen := by
  have hexists : t.exists? (entryOf config f.1 f.2) = false := h
  simp [visit, hexists]

/-- What a visit to a folder with an entry file does: the module is kept, scanned or lost. -/
theorem visit_of_entry (force : Bool) (p : Progress) (h : hasEntry t config f = true) :
    (visit t config force p f).seen = p.seen ++ [keyOf f] ∧
      ((force = false ∧ (visit t config force p f).modules = p.modules ∧
          (p.modules.find? (keyOf f)).any (fun m => !m.isStale (time t config f)) = true) ∨
        ((!force && (p.modules.find? (keyOf f)).any fun m => !m.isStale (time t config f)) = false ∧
          (visit t config force p f).modules =
            match scanned? t config f with
            | some m => p.modules.insert (keyOf f) m
            | none => p.modules.erase (keyOf f))) := by
  have hexists : t.exists? (entryOf config f.1 f.2) = true := h
  unfold visit
  simp only [hexists, Bool.not_true, Bool.false_eq_true, if_false, isFresh_eq]
  split
  · rename_i hfresh
    simp only [Bool.and_eq_true, Bool.not_eq_true'] at hfresh
    exact ⟨rfl, Or.inl ⟨hfresh.1, rfl, hfresh.2⟩⟩
  · rename_i hstale
    have hstale' := Bool.eq_false_iff.2 hstale
    cases hscan : scanModule t config f.1 f.2 with
    | ok r => exact ⟨rfl, Or.inr ⟨hstale', by simp [scanned?, hscan, Except.toOption, keyOf]⟩⟩
    | error e => exact ⟨rfl, Or.inr ⟨hstale', by simp [scanned?, hscan, Except.toOption, keyOf]⟩⟩

/-- **A visit touches one key**, that of the folder. -/
theorem find?_visit (key : String) :
    (visit t config force p f).modules.find? key =
      if hasEntry t config f = true ∧ key = keyOf f then
        refresh t config force f (p.modules.find? key)
      else p.modules.find? key := by
  cases hentry : hasEntry t config f with
  | false =>
    rw [(visit_of_no_entry hentry).1]
    simp
  | true =>
    obtain ⟨-, ⟨hforce, hmodules, hfresh⟩ | ⟨hstale, hmodules⟩⟩ :=
      visit_of_entry force p hentry
    · rw [hmodules]
      split
      · rename_i hkey
        simp [refresh, hkey.2, hforce, hfresh]
      · rfl
    · rw [hmodules]
      by_cases hkey : key = keyOf f
      · subst hkey
        have hrefresh : refresh t config force f (p.modules.find? (keyOf f)) = scanned? t config f := by
          simp [refresh, hstale]
        cases hscan : scanned? t config f <;>
          simp [Catalog.find?_insert, Catalog.find?_erase, hrefresh, hscan]
      · cases scanned? t config f <;> simp [Catalog.find?_insert, Catalog.find?_erase, hkey]

theorem ordered_visit (h : Catalog.Ordered p.modules) :
    Catalog.Ordered (visit t config force p f).modules := by
  cases hentry : hasEntry t config f with
  | false => rwa [(visit_of_no_entry hentry).1]
  | true =>
    obtain ⟨-, ⟨-, hmodules, -⟩ | ⟨-, hmodules⟩⟩ := visit_of_entry force p hentry
    · rwa [hmodules]
    · rw [hmodules]
      split
      · exact Catalog.ordered_insert h _ _
      · exact Catalog.ordered_filter h _

/-! ## All folders -/

theorem seen_foldl_visit (fs : List (String × String)) (p : Progress) :
    (fs.foldl (visit t config force) p).seen =
      p.seen ++ (fs.filter (hasEntry t config)).map keyOf := by
  induction fs generalizing p with
  | nil => simp
  | cons f fs ih =>
    rw [List.foldl_cons, ih, List.filter_cons]
    cases hentry : hasEntry t config f with
    | false => simp [(visit_of_no_entry hentry).2]
    | true => simp [(visit_of_entry force p hentry).1]

theorem ordered_foldl_visit (fs : List (String × String)) {p : Progress}
    (h : Catalog.Ordered p.modules) :
    Catalog.Ordered (fs.foldl (visit t config force) p).modules := by
  induction fs generalizing p with
  | nil => exact h
  | cons f fs ih => exact ih (ordered_visit h)

/-- After a visit to all folders, what is held for one of them has been refreshed. The folder may be
among those still to come, or be done with. -/
theorem find?_foldl_visit {fs : List (String × String)}
    (hinj : ∀ g ∈ fs, keyOf g = keyOf f → g = f) (hentry : hasEntry t config f = true)
    {p : Progress} {held : Option Module}
    (hheld : (f ∈ fs ∧ p.modules.find? (keyOf f) = held) ∨
      p.modules.find? (keyOf f) = refresh t config force f held) :
    (fs.foldl (visit t config force) p).modules.find? (keyOf f) = refresh t config force f held := by
  induction fs generalizing p with
  | nil => simpa using hheld
  | cons g fs ih =>
    simp only [List.forall_mem_cons] at hinj
    refine ih hinj.2 ?_
    rw [find?_visit]
    by_cases hg : g = f
    · subst hg
      right
      rw [if_pos ⟨hentry, rfl⟩]
      rcases hheld with ⟨-, hheld⟩ | hheld
      · rw [hheld]
      · rw [hheld, refresh_refresh]
    · have hkey : ¬(hasEntry t config g = true ∧ keyOf f = keyOf g) :=
        fun h => hg (hinj.1 h.2.symm)
      rw [if_neg hkey]
      refine hheld.imp_left fun h => ⟨?_, h.2⟩
      exact (List.mem_cons.1 h.1).resolve_left (Ne.symm hg)

end

/-- The modules after a rescan. -/
def updated (t : FileTree) (config : Config) (force : Bool) (modules : Catalog Module) :
    Catalog Module :=
  let p := (folders t config).foldl (visit t config force) { modules }
  p.modules.filter fun e => p.seen.contains e.1

section
variable {t : FileTree} {config : Config} {force : Bool} {modules : Catalog Module}

theorem ordered_updated (h : Catalog.Ordered modules) :
    Catalog.Ordered (updated t config force modules) :=
  Catalog.ordered_filter (ordered_foldl_visit _ h) _

theorem find?_updated_eq (key : String) :
    (updated t config force modules).find? key =
      if key ∈ (installed t config).map keyOf then
        ((folders t config).foldl (visit t config force) { modules }).modules.find? key
      else none := by
  rw [updated, Catalog.find?_filter (p := fun k =>
    ((folders t config).foldl (visit t config force) { modules }).seen.contains k), installed]
  simp only [seen_foldl_visit, List.nil_append]
  by_cases hkey : key ∈ ((folders t config).filter (hasEntry t config)).map keyOf
  · rw [if_pos hkey, if_pos (List.contains_iff_mem.2 hkey)]
  · rw [if_neg hkey, if_neg (fun h => hkey (List.contains_iff_mem.1 h))]

/-- **What is held for a module folder after a rescan.** -/
theorem find?_updated {f : String × String} (hf : f ∈ installed t config) :
    (updated t config force modules).find? (keyOf f) =
      refresh t config force f (modules.find? (keyOf f)) := by
  obtain ⟨hmem, hentry⟩ := mem_installed.1 hf
  have hinj : ∀ g ∈ folders t config, keyOf g = keyOf f → g = f := fun g hg => eq_of_keyOf hg hmem
  rw [find?_updated_eq, if_pos (List.mem_map_of_mem hf)]
  exact find?_foldl_visit hinj hentry (Or.inl ⟨hmem, rfl⟩)

theorem find?_updated_eq_none {key : String} (h : ∀ f ∈ installed t config, keyOf f ≠ key) :
    (updated t config force modules).find? key = none := by
  have hkey : key ∉ (installed t config).map keyOf := by
    simpa using fun a b hab => h (a, b) hab
  rw [find?_updated_eq, if_neg hkey]

/-- Every module held after a rescan belongs to an installed module folder. -/
theorem exists_of_find?_updated {key : String} {m : Module}
    (h : (updated t config force modules).find? key = some m) :
    ∃ f ∈ installed t config, keyOf f = key ∧
      refresh t config force f (modules.find? key) = some m := by
  by_cases hkey : ∃ f ∈ installed t config, keyOf f = key
  · obtain ⟨f, hf, rfl⟩ := hkey
    exact ⟨f, hf, rfl, (find?_updated hf).symm.trans h⟩
  · push Not at hkey
    rw [find?_updated_eq_none hkey] at h
    cases h

/-- A module folder of whatever tree has a module after a rescan only if it was installed. -/
theorem installed_of_find?_updated {t' : FileTree} {f : String × String} (hf : f ∈ folders t' config)
    {m : Module} (h : (updated t config force modules).find? (keyOf f) = some m) :
    f ∈ installed t config ∧ refresh t config force f (modules.find? (keyOf f)) = some m := by
  obtain ⟨g, hg, hkey, hrefresh⟩ := exists_of_find?_updated h
  obtain rfl := eq_of_keyOf (mem_installed.1 hg).1 hf hkey
  exact ⟨hg, hrefresh⟩

/-- An installation with one module. -/
theorem updated_of_single {f : String × String} (hf : installed t config = [f])
    (hordered : Catalog.Ordered modules) :
    updated t config force modules =
      ((refresh t config force f (modules.find? (keyOf f))).map fun m => (keyOf f, m)).toList := by
  refine Catalog.ext (ordered_updated hordered) ?_ fun key => ?_
  · cases refresh t config force f (modules.find? (keyOf f)) with
    | none => exact Catalog.ordered_nil
    | some m => exact List.pairwise_singleton _ _
  · by_cases hkey : keyOf f = key
    · subst hkey
      rw [find?_updated (by simp [hf])]
      cases refresh t config force f (modules.find? (keyOf f)) with
      | none => rfl
      | some m => simp [Catalog.find?_cons]
    · rw [find?_updated_eq_none (by simpa [hf] using hkey)]
      cases refresh t config force f (modules.find? (keyOf f)) with
      | none => rfl
      | some m =>
        rw [Option.map_some, Option.toList_some, Catalog.find?_cons, if_neg (Ne.symm hkey)]
        rfl

end

/-! ## The rescan -/

section
variable (s : Session) (t : FileTree) (force : Bool)

theorem rescan_of_no_folder (h : t.isFolder s.config.modFolder = false) :
    s.rescan t force =
      { result := .error (.sourceNotFound s.config.modFolder), session := s, tree := t } := by
  simp [rescan, h]

/-- A rescan goes through the module folders, drops what belongs to none of them, and writes the
cache. -/
theorem rescan_eq (h : t.isFolder s.config.modFolder = true) :
    s.rescan t force =
      let p := (folders t s.config).foldl (visit t s.config force) { modules := s.modules }
      let modules := updated t s.config force s.modules
      let written := t.write s.config.cacheFile (cacheText modules)
      let removed := p.modules.length - modules.length
      match written.fault with
      | some fault =>
        { result := .error (.access s.config.cacheFile fault), session := { s with modules }
          tree := written.tree, log := p.log }
      | none =>
        { result := .ok { scanned := p.scanned, reused := p.reused, removed }
          session := { s with modules }, tree := written.tree
          log := p.log ++ [.scanFinished p.scanned p.reused removed] } := by
  have hlist : t.list s.config.modFolder = .ok (t.namesIn s.config.modFolder.normalize) :=
    FileTree.list_eq_ok_iff.2 ⟨h, rfl⟩
  have hfolders : moduleFolders t s.config (t.namesIn s.config.modFolder.normalize) =
      folders t s.config := by
    simp [folders, hlist, Except.toOption]
  simp only [rescan, h, Bool.not_true, Bool.false_eq_true, if_false, hlist, hfolders]
  rfl

/-- **What a rescan leaves behind**: the updated modules, in the session and in the cache. It succeeds
where the cache can be written. -/
theorem rescan_of_folder (h : t.isFolder s.config.modFolder = true) :
    let modules := updated t s.config force s.modules
    let written := t.write s.config.cacheFile (cacheText modules)
    (s.rescan t force).session = { s with modules } ∧ (s.rescan t force).tree = written.tree ∧
      ((∃ report, (s.rescan t force).result = .ok report) ↔ written.fault = none) := by
  intro modules written
  have hwritten : t.write s.config.cacheFile (cacheText (updated t s.config force s.modules)) =
      written := rfl
  rw [rescan_eq s t force h]
  simp only [hwritten]
  cases hfault : written.fault with
  | some fault => exact ⟨rfl, rfl, by simp⟩
  | none => exact ⟨rfl, rfl, by simp⟩

variable {s t force}

/-- A rescan that succeeds has found the folder of the modules. -/
theorem isFolder_of_rescan {report : Report} (hok : (s.rescan t force).result = .ok report) :
    t.isFolder s.config.modFolder = true := by
  by_contra hnot
  rw [rescan_of_no_folder s t force (by simpa using hnot)] at hok
  cases hok

end

/-! ## The cache -/

/-- Where the cache is. -/
def cachePlace (config : Config) : Path :=
  config.cacheFile.normalize

/-- Pages are no part of the cache. -/
theorem cacheText_withoutHtml (modules : Catalog Module) :
    cacheText (Catalog.mapValues Module.withoutHtml modules) = cacheText modules := by
  simp only [cacheText, Cache.toJson, Catalog.mapValues, List.map_map]
  rfl

/-- A cache that was cut short does not decode. -/
theorem decode_cut {modules : Catalog Module} {n : Nat} (hn : n < (cacheText modules).utf8ByteSize)
    {text : String} (h : Content.cut (cacheText modules) n = .text text) :
    (Json.read? text).bind Cache.ofJson? = none := by
  obtain ⟨more, hmore, htext⟩ := FileTree.exists_append_of_cut hn h
  exact Cache.read?_of_prefix hmore htext

/-- A cache is read without the rendered pages. -/
theorem readCache_of_read {s : Session} {t : FileTree} {entries : Catalog Module}
    (hread : t.read s.config.cacheFile = .ok (cacheText entries))
    (hordered : Catalog.Ordered entries) (hwords : ∀ e ∈ entries, e.2.InWords) :
    (s.readCache t).1 = { s with modules := Catalog.mapValues Module.withoutHtml entries } := by
  have hback : Catalog.ofList (entries.map fun e => (e.1, e.2.withoutHtml)) =
      Catalog.mapValues Module.withoutHtml entries :=
    Catalog.ofList_of_ordered (Catalog.ordered_mapValues hordered _)
  simp only [readCache, hread, cacheText, Cache.read?_compact hwords, hback]

end BlitzDoc.Session
