import BlitzDoc.Proofs.Session.Report

/-!
# Sessions with nothing left to scan

Where the modules of a session are `Settled`, a rescan without force finds nothing to do: every module
belongs to an installed module folder and has its time, and no other module folder can be scanned. The
modules are then what a rescan would make of them (`updated_of_settled`). Every folder with a module is
reused and no folder is scanned, so the rescan reports that it has kept them all (`rescan_of_settled`).
-/

namespace BlitzDoc.Session

/-- A rescan would find nothing to do. -/
structure Settled (config : Config) (t : FileTree) (modules : Catalog Module) : Prop where
  ordered : Catalog.Ordered modules
  /-- Every module belongs to an installed module folder. -/
  installed : ∀ key m, modules.find? key = some m → ∃ f ∈ installed t config, keyOf f = key
  /-- It has the time of the folder. -/
  fresh : ∀ f ∈ Session.installed t config, ∀ m, modules.find? (keyOf f) = some m →
    m.lastModified = time t config f
  /-- No other folder can be scanned. -/
  others : ∀ f ∈ Session.installed t config, modules.find? (keyOf f) = none →
    scanned? t config f = none

section
variable {t : FileTree} {config : Config} {modules : Catalog Module} (h : Settled config t modules)
include h

/-- A folder is reused if there is a module for it, and not scanned otherwise. -/
theorem isReused_of_settled {f : String × String} (hf : f ∈ installed t config) :
    isReused t config false modules f = (modules.find? (keyOf f)).isSome ∧
      isScanned t config false modules f = false := by
  cases hheld : modules.find? (keyOf f) with
  | some m => simp [isScanned, isReused, hheld, h.fresh f hf m hheld]
  | none => simp [isScanned, isReused, hheld, h.others f hf hheld]

/-- **A rescan leaves the modules as they are.** -/
theorem updated_of_settled : updated t config false modules = modules := by
  refine Catalog.ext (ordered_updated h.ordered) h.ordered fun key => ?_
  by_cases hkey : ∃ f ∈ installed t config, keyOf f = key
  · obtain ⟨f, hf, rfl⟩ := hkey
    obtain ⟨hreused, -⟩ := isReused_of_settled h hf
    rw [find?_updated hf]
    cases hheld : modules.find? (keyOf f) with
    | some m =>
      obtain ⟨m', hm', hkept⟩ := refresh_of_isReused (hreused.trans (by rw [hheld]; rfl))
      rw [← hheld, hkept, hm']
    | none =>
      rw [← hheld, refresh_of_not_isReused (hreused.trans (by rw [hheld]; rfl)), hheld]
      exact h.others f hf hheld
  · push Not at hkey
    rw [find?_updated_eq_none hkey]
    cases hheld : modules.find? key with
    | none => rfl
    | some m =>
      obtain ⟨f, hf, hf'⟩ := h.installed key m hheld
      exact absurd hf' (hkey f hf)

/-- The report says that all modules were kept. -/
theorem reportOf_of_settled :
    reportOf t config false modules = { scanned := 0, reused := modules.length, removed := 0 } := by
  have hscanned : (reportOf t config false modules).scanned = 0 :=
    List.countP_eq_zero.2 fun f hf => by simp [(isReused_of_settled h hf).2]
  have hreused : (reportOf t config false modules).reused = modules.length := by
    have hlength := length_updated t config false h.ordered
    rw [updated_of_settled h, hscanned] at hlength
    omega
  have hremoved : (reportOf t config false modules).removed = 0 := by
    refine List.countP_eq_zero.2 fun e he => ?_
    obtain ⟨f, hf, hkey⟩ := h.installed e.1 e.2 ((Catalog.mem_iff_find? h.ordered e.1 e.2).1 he)
    have hmem : e.1 ∈ (installed t config).map keyOf := hkey ▸ List.mem_map_of_mem hf
    rw [List.contains_iff_mem.2 hmem]
    decide
  calc reportOf t config false modules
      = ⟨_, _, _⟩ := rfl
    _ = ⟨0, modules.length, 0⟩ := Report.mk.injEq .. ▸ ⟨hscanned, hreused, hremoved⟩

end

/-- **A rescan of a settled session** keeps all modules, where the cache can be written. -/
theorem rescan_of_settled {s : Session} {t t' : FileTree}
    (hfolder : t.isFolder s.config.modFolder = true) (h : Settled s.config t s.modules)
    (hcache : t.write s.config.cacheFile (cacheText s.modules) = { tree := t' }) :
    (s.rescan t false).result = .ok { scanned := 0, reused := s.modules.length, removed := 0 } ∧
      (s.rescan t false).session = s ∧ (s.rescan t false).tree = t' := by
  obtain ⟨hsession, htree, -⟩ := rescan_of_folder s t false hfolder
  have hresult := rescan_result false hfolder h.ordered
  rw [updated_of_settled h, hcache] at htree
  rw [updated_of_settled h, hcache, reportOf_of_settled h] at hresult
  rw [updated_of_settled h] at hsession
  exact ⟨hresult, hsession, htree⟩

end BlitzDoc.Session
