import BlitzDoc.Proofs.Session.Rescan
import Mathlib.Data.Set.Card

/-!
# What a rescan reports

A rescan counts while it goes: a folder at a time, it keeps a module, scans one, or loses one, and in
the end it drops what belongs to no folder. The counts can be said without the loop. A folder with an
entry file is reused if it is held with the time of today, and otherwise scanned if a scan gives a module
(`isReused`, `isScanned`); a key is removed if no folder with an entry file has it. The main statement is
`rescan_report`.

One visit adds to the counts what its folder is worth (`visit_counts`). Keys tell folders apart, so no
visit changes what a later folder is worth (`foldl_visit_counts`), nor anything under a key that belongs
to no folder (`find?_foldl_visit_of_ne`).
-/

namespace BlitzDoc.Session

/-! ## Module folders as they are listed -/

/-- A module folder with its entry file: a listed folder in a listed folder, both named as folders of
modules are. -/
structure IsModule (t : FileTree) (config : Config) (f : String × String) : Prop where
  outer : ∃ names, t.list config.modFolder = .ok names ∧ f.1 ∈ names
  inner : ∃ names, t.list (config.modFolder / f.1) = .ok names ∧ f.2 ∈ names
  named : isModFolder f.1 = true ∧ isModFolder f.2 = true
  entry : t.exists? (config.modFolder / f.1 / f.2 / (modStem f.2 ++ "." ++ config.extension)) = true

section
variable {t : FileTree} {config : Config}

theorem mem_installed_iff {f : String × String} : f ∈ installed t config ↔ IsModule t config f := by
  rw [mem_installed]
  constructor
  · rintro ⟨hfolder, hentry⟩
    obtain ⟨parents, names, hparents, hfst, hmod, hnames, hsnd, hmod'⟩ := mem_folders hfolder
    exact ⟨⟨parents, Imports.toOption_eq_some_iff.1 hparents, hfst⟩,
      ⟨names, Imports.toOption_eq_some_iff.1 hnames, hsnd⟩, ⟨hmod, hmod'⟩, hentry⟩
  · rintro ⟨⟨parents, hparents, hfst⟩, ⟨names, hnames, hsnd⟩, ⟨hmod, hmod'⟩, hentry⟩
    exact ⟨mem_folders_of_list hparents hfst hmod hnames hsnd hmod', hentry⟩

end

/-! ## Module folders are listed once -/

theorem nodup_of_list {t : FileTree} {p : Path} : ((t.list p).toOption.getD []).Nodup := by
  cases h : t.list p with
  | error e => exact List.nodup_nil
  | ok names =>
    obtain ⟨-, rfl⟩ := FileTree.list_eq_ok_iff.1 h
    exact t.nodup_namesIn p.normalize

theorem nodup_folders (t : FileTree) (config : Config) : (folders t config).Nodup := by
  rw [folders, moduleFolders, List.nodup_flatMap]
  constructor
  · intro parent _
    refine (nodup_of_list.filter _).map ?_
    intro a b h
    exact congrArg Prod.snd h
  · refine (nodup_of_list.filter _).imp ?_
    intro a b hne
    refine List.disjoint_left.2 ?_
    intro f ha hb
    obtain ⟨x, -, rfl⟩ := List.mem_map.1 ha
    obtain ⟨y, -, hy⟩ := List.mem_map.1 hb
    exact hne (congrArg Prod.fst hy).symm

theorem nodup_keys (t : FileTree) (config : Config) : ((folders t config).map keyOf).Nodup := by
  refine List.Nodup.map_on ?_ (nodup_folders t config)
  intro f hf g hg hkey
  exact eq_of_keyOf hf hg hkey

/-- **Every module is that of one folder.** A catalog whose keys are those of some folders holds as many
modules as there are such folders. -/
theorem countP_eq_length {t : FileTree} {config : Config} {modules : Catalog Module}
    (hordered : Catalog.Ordered modules) {p : String × String → Bool}
    (h : ∀ key, (modules.find? key).isSome = true ↔
      ∃ f ∈ folders t config, p f = true ∧ keyOf f = key) :
    (folders t config).countP p = modules.length := by
  have hfolders : (((folders t config).filter p).map keyOf).Nodup :=
    (nodup_keys t config).sublist (List.filter_sublist.map keyOf)
  have hsame : ∀ key, key ∈ ((folders t config).filter p).map keyOf ↔ key ∈ modules.map Prod.fst := by
    intro key
    rw [Catalog.mem_keys_iff hordered, h]
    simp [and_assoc]
  have hlength := ((List.perm_ext_iff_of_nodup hfolders (Catalog.nodup_keys hordered)).2 hsame).length_eq
  rwa [List.length_map, List.length_map, ← List.countP_eq_length_filter] at hlength

/-! ## What a folder is worth -/

section
variable (t : FileTree) (config : Config) (force : Bool) (modules : Catalog Module)
  (f : String × String)

/-- The module that is held for the folder is kept as it is. -/
def isReused : Bool :=
  !force && (modules.find? (keyOf f)).any fun m => m.lastModified == time t config f

/-- The folder is scanned, and the scan gives a module. -/
def isScanned : Bool :=
  !isReused t config force modules f && (scanned? t config f).isSome

end

section
variable {t : FileTree} {config : Config} {force : Bool} {modules : Catalog Module}
  {f : String × String}

theorem isReused_eq (t : FileTree) (config : Config) (force : Bool) (modules : Catalog Module)
    (f : String × String) : isReused t config force modules f =
      (!force && (modules.find? (keyOf f)).any fun m => !m.isStale (time t config f)) := by
  simp only [isReused, Module.isStale, bne, Bool.not_not]

theorem isReused_congr {modules' : Catalog Module}
    (h : modules'.find? (keyOf f) = modules.find? (keyOf f)) :
    isReused t config force modules' f = isReused t config force modules f := by
  rw [isReused, isReused, h]

theorem refresh_of_isReused (h : isReused t config force modules f = true) :
    ∃ m, modules.find? (keyOf f) = some m ∧
      refresh t config force f (modules.find? (keyOf f)) = some m := by
  have hkept : refresh t config force f (modules.find? (keyOf f)) = modules.find? (keyOf f) := by
    rw [refresh, ← isReused_eq, h]
    rfl
  simp only [isReused, Bool.and_eq_true, Option.any_eq_true] at h
  obtain ⟨-, m, hheld, -⟩ := h
  exact ⟨m, hheld, hkept.trans hheld⟩

theorem refresh_of_not_isReused (h : isReused t config force modules f = false) :
    refresh t config force f (modules.find? (keyOf f)) = scanned? t config f := by
  rw [refresh, ← isReused_eq, h]
  rfl

/-- A rescan ends with a module for the folders that are reused or scanned. -/
theorem isSome_refresh_iff : (refresh t config force f (modules.find? (keyOf f))).isSome =
    (isReused t config force modules f || isScanned t config force modules f) := by
  cases hreused : isReused t config force modules f with
  | true =>
    obtain ⟨m, -, hm⟩ := refresh_of_isReused hreused
    rw [hm]
    rfl
  | false =>
    rw [refresh_of_not_isReused hreused, isScanned, hreused]
    rfl

/-! ## Counting -/

/-- **What one visit counts.** -/
theorem visit_counts (t : FileTree) (config : Config) (force : Bool) (p : Progress)
    (f : String × String) :
    (visit t config force p f).reused =
        p.reused + (hasEntry t config f && isReused t config force p.modules f).toNat ∧
      (visit t config force p f).scanned =
        p.scanned + (hasEntry t config f && isScanned t config force p.modules f).toNat := by
  cases hentry : hasEntry t config f with
  | false =>
    have hexists : t.exists? (entryOf config f.1 f.2) = false := hentry
    simp [visit, hexists]
  | true =>
    have hexists : t.exists? (entryOf config f.1 f.2) = true := hentry
    have hfresh : (!force && isFresh p.modules (Module.keyOf f.1 f.2)
        (lastModified t config f.1 f.2)) = isReused t config force p.modules f := by
      rw [isFresh_eq, isReused_eq]
      rfl
    simp only [visit, hexists, Bool.not_true, Bool.false_eq_true, if_false, hfresh, Bool.true_and]
    cases hreused : isReused t config force p.modules f with
    | true => simp [isScanned, hreused]
    | false =>
      cases hscan : scanModule t config f.1 f.2 with
      | ok r => simp [isScanned, hreused, scanned?, hscan, Except.toOption]
      | error e => simp [isScanned, hreused, scanned?, hscan, Except.toOption]

/-- **What all visits count.** The folders still to come are held as they were at the start. -/
theorem foldl_visit_counts (t : FileTree) (config : Config) (force : Bool)
    {fs : List (String × String)} (hkeys : (fs.map keyOf).Nodup) (p : Progress)
    (hheld : ∀ f ∈ fs, p.modules.find? (keyOf f) = modules.find? (keyOf f)) :
    (fs.foldl (visit t config force) p).reused =
        p.reused + (fs.filter (hasEntry t config)).countP (isReused t config force modules) ∧
      (fs.foldl (visit t config force) p).scanned =
        p.scanned + (fs.filter (hasEntry t config)).countP (isScanned t config force modules) := by
  induction fs generalizing p with
  | nil => simp
  | cons f fs ih =>
    rw [List.map_cons, List.nodup_cons] at hkeys
    simp only [List.forall_mem_cons] at hheld
    have hlater : ∀ g ∈ fs, (visit t config force p f).modules.find? (keyOf g) =
        modules.find? (keyOf g) := by
      intro g hg
      have hne : keyOf g ≠ keyOf f := fun h => hkeys.1 (h ▸ List.mem_map_of_mem hg)
      rw [find?_visit, if_neg (fun h => hne h.2), hheld.2 g hg]
    obtain ⟨hreused, hscanned⟩ := visit_counts t config force p f
    obtain ⟨hreused', hscanned'⟩ := ih hkeys.2 _ hlater
    have hworth : isReused t config force p.modules f = isReused t config force modules f :=
      isReused_congr hheld.1
    rw [isScanned, hworth, ← isScanned] at hscanned
    rw [hworth] at hreused
    rw [List.foldl_cons, hreused', hscanned', hreused, hscanned, List.filter_cons]
    cases hasEntry t config f with
    | false => simp
    | true =>
      simp only [Bool.true_and, if_true, List.countP_cons]
      cases isReused t config force modules f <;> cases isScanned t config force modules f <;>
        simp <;> omega

/-- No visit changes what is held under a key that belongs to none of the folders. -/
theorem find?_foldl_visit_of_ne {fs : List (String × String)} {key : String}
    (hkey : ∀ f ∈ fs, hasEntry t config f = true → keyOf f ≠ key) (p : Progress) :
    (fs.foldl (visit t config force) p).modules.find? key = p.modules.find? key := by
  induction fs generalizing p with
  | nil => rfl
  | cons f fs ih =>
    simp only [List.forall_mem_cons] at hkey
    rw [List.foldl_cons, ih hkey.2, find?_visit, if_neg]
    rintro ⟨hentry, rfl⟩
    exact hkey.1 hentry rfl

/-- What is dropped in the end was there from the start. -/
theorem filter_foldl_visit (force : Bool) (hordered : Catalog.Ordered modules) :
    ((folders t config).foldl (visit t config force) { modules }).modules.filter
        (fun e => !((installed t config).map keyOf).contains e.1) =
      modules.filter fun e => !((installed t config).map keyOf).contains e.1 := by
  refine Catalog.ext (Catalog.ordered_filter (ordered_foldl_visit _ hordered) _)
    (Catalog.ordered_filter hordered _) fun key => ?_
  rw [Catalog.find?_filter _ fun k => !((installed t config).map keyOf).contains k,
    Catalog.find?_filter _ fun k => !((installed t config).map keyOf).contains k]
  split
  · rename_i hgone
    refine find?_foldl_visit_of_ne ?_ _
    rintro f hf hentry rfl
    have hmem : keyOf f ∈ (installed t config).map keyOf :=
      List.mem_map_of_mem (mem_installed.2 ⟨hf, hentry⟩)
    rw [List.contains_iff_mem.2 hmem] at hgone
    cases hgone
  · rfl

end

/-! ## The report -/

/-- The numbers of modules that a rescan scans, keeps and drops. -/
def reportOf (t : FileTree) (config : Config) (force : Bool) (modules : Catalog Module) : Report where
  scanned := (installed t config).countP (isScanned t config force modules)
  reused := (installed t config).countP (isReused t config force modules)
  removed := modules.countP fun e => !((installed t config).map keyOf).contains e.1

section
variable {t : FileTree} {config : Config} {force : Bool} {modules : Catalog Module}

/-- A module is held for the folders that were reused or scanned. -/
theorem isSome_updated_iff (key : String) :
    ((updated t config force modules).find? key).isSome = true ↔
      ∃ f ∈ installed t config, (isReused t config force modules f ||
        isScanned t config force modules f) = true ∧ keyOf f = key := by
  simp only [← isSome_refresh_iff]
  constructor
  · intro hheld
    obtain ⟨m, hm⟩ := Option.isSome_iff_exists.1 hheld
    obtain ⟨f, hf, rfl, hrefresh⟩ := exists_of_find?_updated hm
    exact ⟨f, hf, Option.isSome_of_eq_some hrefresh, rfl⟩
  · rintro ⟨f, hf, hheld, rfl⟩
    rwa [find?_updated hf]

theorem mem_keys_updated (hordered : Catalog.Ordered modules) (key : String) :
    key ∈ (updated t config force modules).map Prod.fst ↔
      ∃ f, (IsModule t config f ∧ isReused t config force modules f = true ∨
        IsModule t config f ∧ isScanned t config force modules f = true) ∧ keyOf f = key := by
  rw [Catalog.mem_keys_iff (ordered_updated hordered), isSome_updated_iff]
  simp only [mem_installed_iff, Bool.or_eq_true, ← and_or_left, and_assoc]

/-- A folder that is reused is not scanned, so the two are counted apart. -/
theorem countP_reused_or_scanned (fs : List (String × String)) :
    fs.countP (fun f => isReused t config force modules f || isScanned t config force modules f) =
      fs.countP (isScanned t config force modules) + fs.countP (isReused t config force modules) := by
  induction fs with
  | nil => rfl
  | cons f fs ih =>
    rw [List.countP_cons, List.countP_cons, List.countP_cons, ih]
    cases hreused : isReused t config force modules f with
    | true => simp [isScanned, hreused]; omega
    | false => simp; omega

/-- The modules after a rescan are those that it has scanned and kept. -/
theorem length_updated (t : FileTree) (config : Config) (force : Bool) (hordered : Catalog.Ordered modules) :
    (updated t config force modules).length =
      (reportOf t config force modules).scanned + (reportOf t config force modules).reused := by
  have hkeys : ∀ key, ((updated t config force modules).find? key).isSome = true ↔
      ∃ f ∈ folders t config, (hasEntry t config f && (isReused t config force modules f ||
        isScanned t config force modules f)) = true ∧ keyOf f = key := by
    intro key
    rw [isSome_updated_iff]
    simp only [mem_installed, Bool.and_eq_true, and_assoc]
  rw [← countP_eq_length (ordered_updated hordered) hkeys]
  simp only [Bool.and_comm (hasEntry _ _ _)]
  rw [← List.countP_filter]
  exact countP_reused_or_scanned _

/-- The modules that a rescan drops belong to no module folder. -/
theorem length_sub_updated (t : FileTree) (config : Config) (force : Bool)
    (hordered : Catalog.Ordered modules) :
    ((folders t config).foldl (visit t config force) { modules }).modules.length -
        (updated t config force modules).length = (reportOf t config force modules).removed := by
  have hseen : ((folders t config).foldl (visit t config force) { modules }).seen =
      (installed t config).map keyOf := by
    rw [seen_foldl_visit]
    rfl
  have hsplit := List.length_eq_length_filter_add
    (l := ((folders t config).foldl (visit t config force) { modules }).modules)
    fun e => ((installed t config).map keyOf).contains e.1
  have hremoved : (reportOf t config force modules).removed =
      (modules.filter fun e => !((installed t config).map keyOf).contains e.1).length :=
    List.countP_eq_length_filter
  rw [hremoved, ← filter_foldl_visit force hordered, updated, hseen]
  omega

/-- **What a rescan answers**: its report, or the fault that kept it from writing the cache. -/
theorem rescan_result {s : Session} {t : FileTree} (force : Bool)
    (hfolder : t.isFolder s.config.modFolder = true) (hordered : Catalog.Ordered s.modules) :
    (s.rescan t force).result =
      match (t.write s.config.cacheFile (cacheText (updated t s.config force s.modules))).fault with
      | some fault => .error (.access s.config.cacheFile fault)
      | none => .ok (reportOf t s.config force s.modules) := by
  obtain ⟨hreused, hscanned⟩ := foldl_visit_counts t s.config force (nodup_keys t s.config)
    { modules := s.modules } fun _ _ => rfl
  have hremoved := length_sub_updated t s.config force hordered
  rw [rescan_eq s t force hfolder]
  simp only [hreused, hscanned, hremoved, Nat.zero_add]
  cases (t.write s.config.cacheFile (cacheText (updated t s.config force s.modules))).fault with
  | some fault => rfl
  | none => rfl

end

/-- The folders of a kind, as many as are counted. -/
theorem ncard_installed (t : FileTree) (config : Config) (p : String × String → Bool) :
    {f | IsModule t config f ∧ p f = true}.ncard = (installed t config).countP p := by
  have hset : {f | IsModule t config f ∧ p f = true} =
      (((installed t config).filter p).toFinset : Set (String × String)) := by
    ext f
    simp [mem_installed_iff]
  have hnodup : ((installed t config).filter p).Nodup := ((nodup_folders t config).filter _).filter _
  rw [hset, Set.ncard_coe_finset, List.toFinset_card_of_nodup hnodup, ← List.countP_eq_length_filter]

/-- The keys that belong to no module folder, as many as are counted. -/
theorem ncard_removed (t : FileTree) (config : Config) {modules : Catalog Module}
    (hordered : Catalog.Ordered modules) :
    {key | key ∈ modules.map Prod.fst ∧ ∀ f, IsModule t config f → keyOf f ≠ key}.ncard =
      modules.countP fun e => !((installed t config).map keyOf).contains e.1 := by
  have hset : {key | key ∈ modules.map Prod.fst ∧ ∀ f, IsModule t config f → keyOf f ≠ key} =
      (((modules.map Prod.fst).filter fun key =>
        !((installed t config).map keyOf).contains key).toFinset : Set String) := by
    ext key
    simp [← mem_installed_iff]
  rw [hset, Set.ncard_coe_finset,
    List.toFinset_card_of_nodup ((Catalog.nodup_keys hordered).filter _),
    ← List.countP_eq_length_filter, List.countP_map]
  rfl

/-- **The report of a rescan is exact.** The modules are those of the module folders that were reused
or scanned, each counted once, and what was dropped had no folder any more. A module that was reused is
the one held before, its page included. -/
theorem rescan_report {s : Session} {t : FileTree} {force : Bool} {report : Report}
    (hordered : Catalog.Ordered s.modules) (h : (s.rescan t force).result = .ok report) :
    let after := (s.rescan t force).session.modules
    let reused := {f | IsModule t s.config f ∧ isReused t s.config force s.modules f = true}
    let scanned := {f | IsModule t s.config f ∧ isScanned t s.config force s.modules f = true}
    (∀ key, key ∈ after.map Prod.fst ↔ ∃ f ∈ reused ∪ scanned, keyOf f = key) ∧
      report.reused = reused.ncard ∧ report.scanned = scanned.ncard ∧
      report.scanned + report.reused = after.length ∧
      report.removed =
        {key | key ∈ s.modules.map Prod.fst ∧ ∀ f, IsModule t s.config f → keyOf f ≠ key}.ncard ∧
      (force = true → report.reused = 0) ∧
      (∀ f ∈ reused, ∃ m, s.modules.find? (keyOf f) = some m ∧ after.find? (keyOf f) = some m) ∧
      ∀ f ∈ scanned, after.find? (keyOf f) = scanned? t s.config f := by
  intro after reused scanned
  have hfolder := isFolder_of_rescan h
  have hafter : after = updated t s.config force s.modules := by
    rw [show after = (s.rescan t force).session.modules from rfl,
      (rescan_of_folder s t force hfolder).1]
  have hreport : report = reportOf t s.config force s.modules := by
    rw [rescan_result force hfolder hordered] at h
    split at h
    · cases h
    · exact (Except.ok.inj h).symm
  subst hreport
  refine ⟨?_, (ncard_installed ..).symm, (ncard_installed ..).symm, ?_, (ncard_removed _ _ hordered).symm,
    ?_, ?_, ?_⟩
  · intro key
    rw [hafter]
    exact mem_keys_updated hordered key
  · rw [hafter, length_updated _ _ _ hordered]
  · rintro rfl
    exact List.countP_eq_zero.2 fun f _ => by simp [isReused]
  · rintro f ⟨hf, hreused⟩
    rw [hafter, find?_updated (mem_installed_iff.2 hf)]
    exact refresh_of_isReused hreused
  · rintro f ⟨hf, hscanned⟩
    rw [hafter, find?_updated (mem_installed_iff.2 hf)]
    exact refresh_of_not_isReused (by simpa using (Bool.and_eq_true_iff.1 hscanned).1)

/-- An installation with a module folder to keep, one to scan, one that cannot be scanned and one
without an entry file. -/
def mixedTree : FileTree where
  files := [(⟨"root/mod/a.MOD/held.mod/held.bmx"⟩, .text "Module a.held"),
    (⟨"root/mod/a.MOD/new.mod/new.bmx"⟩, .text "Module a.new"),
    (⟨"root/mod/a.MOD/torn.mod/torn.bmx"⟩, .bytes [255]),
    (⟨"root/mod/a.MOD/bare.mod/readme"⟩, .text "")]

/-- A session that has rendered a page of it, and holds a module of elsewhere. -/
def mixedSession : Session where
  config := { root := ⟨"root"⟩, cacheFile := ⟨"root/c.json"⟩, extension := "bmx" }
  modules := [("a.MOD/bare.mod", { lastModified := 1 }),
    ("a.MOD/held.mod", { lastModified := 1, html := some "<h1>held</h1>" }),
    ("a.MOD/torn.mod", { lastModified := 0 }), ("elsewhere", {})]

theorem ordered_mixedSession : Catalog.Ordered mixedSession.modules := by
  unfold Catalog.Ordered
  decide

theorem rescan_report_mixed :
    Catalog.Ordered mixedSession.modules ∧
      (mixedSession.rescan mixedTree false).result =
        .ok { scanned := 1, reused := 1, removed := 2 } ∧
      (mixedSession.rescan mixedTree false).session.modules.length = 2 ∧
      {key | key ∈ mixedSession.modules.map Prod.fst ∧
        ∀ f, IsModule mixedTree mixedSession.config f → keyOf f ≠ key}.ncard = 2 ∧
      ∃ m, (mixedSession.rescan mixedTree false).session.modules.find? "a.MOD/held.mod" = some m ∧
        m.html = some "<h1>held</h1>" := by
  have hordered := ordered_mixedSession
  have hresult : (mixedSession.rescan mixedTree false).result =
      .ok { scanned := 1, reused := 1, removed := 2 } := by
    decide +kernel
  have hheld : ("a.MOD", "held.mod") ∈ installed mixedTree mixedSession.config := by decide +kernel
  obtain ⟨-, -, -, hlength, hremoved, -, hreused, -⟩ := rescan_report hordered hresult
  obtain ⟨m, hbefore, hafter⟩ :=
    hreused ("a.MOD", "held.mod") ⟨mem_installed_iff.1 hheld, by decide +kernel⟩
  refine ⟨hordered, hresult, hlength.symm, hremoved.symm, m, hafter, ?_⟩
  obtain rfl := Option.some.inj hbefore
  rfl

end BlitzDoc.Session
