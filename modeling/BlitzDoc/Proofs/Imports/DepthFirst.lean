import BlitzDoc.Proofs.Analysis.Append
import BlitzDoc.Proofs.Imports.Search
import BlitzDoc.Proofs.Source.Turn

/-!
# Imports by recursion

The search keeps a stack and merges every file it scans straight into the root. `explore` is the
same search by recursion: a file is marked and scanned, each of its targets is explored in turn, and
the whole result of a target, with all that the target pulled in, is merged into the file that named
it. The main statement `analyze_eq_explore` says that both give the same outcome on every graph of
imports: entries, parents and module tags, links, marks and events.

The stack can be cut (`follow_append`): the targets on top of it are explored as if nothing lay
below. A file merged into the root at once, or into its importer first, ends in the same place
because merging is associative (`visit_under`).
-/

namespace BlitzDoc.Imports

open Source (Options Scanned scan scan_moduleName)

mutual

/-- Marks a file, scans it and explores its targets. The result comes with the fact that no mark
was taken back. -/
def explore (t : FileTree) (source : String) (file : Path) (options : Options)
    (visited : List Path) :
    { o : Outcome // unvisited t o.visited ≤ unvisited t (mark visited file.normalize) } :=
  let own := scan source file options
  exploreAll t { options with isModuleEntry := false } own.targets
    { analysis := own.analysis, visited := mark visited file.normalize, log := own.log }
termination_by
  (unvisited t (mark visited file.normalize), (scan source file options).targets.length + 1)
decreasing_by
  exact Prod.Lex.right _ (Nat.lt_succ_self _)

/-- Explores targets in turn. One with a foreign extension or a mark is passed over; one that is
missing or cannot be read only gets its mark; of any other the whole result is merged. -/
def exploreAll (t : FileTree) (options : Options) (targets : List Path) (acc : Outcome) :
    { o : Outcome // unvisited t o.visited ≤ unvisited t acc.visited } :=
  match targets with
  | [] => ⟨acc, Nat.le_refl _⟩
  | target :: rest =>
    match hlook : look t options acc.visited target with
    | .skipped e => exploreAll t options rest { acc with log := acc.log ++ [e] }
    | .missed e =>
      let all := exploreAll t options rest
        { acc with visited := mark acc.visited target.normalize, log := acc.log ++ [e] }
      ⟨all.1, Nat.le_trans all.2 (unvisited_mark_le t acc.visited target.normalize)⟩
    | .readable text =>
      have := unvisited_lt (look_readable hlook).2.1 (look_readable hlook).2.2
      let sub := explore t text target options acc.visited
      have hsub := Nat.le_trans sub.2 (unvisited_mark_le t acc.visited target.normalize)
      let all := exploreAll t options rest
        { analysis := acc.analysis.append sub.1.analysis
          visited := sub.1.visited
          log := acc.log ++ sub.1.log }
      ⟨all.1, Nat.le_trans all.2 hsub⟩
termination_by (unvisited t acc.visited, targets.length)
decreasing_by
  · exact Prod.Lex.right _ (Nat.lt_succ_self _)
  · exact lex_of_le_of_lt (unvisited_mark_le _ _ _) (Nat.lt_succ_self _)
  · exact Prod.Lex.left _ _ (by assumption)
  · exact lex_of_le_of_lt hsub (Nat.lt_succ_self _)

end

/-! ## One target of the recursion -/

/-- An outcome with an analysis and events in front of it. -/
def Outcome.under (o : Outcome) (a : Analysis) (log : List Event) : Outcome :=
  { analysis := a.append o.analysis, visited := o.visited, log := log ++ o.log }

/-- What exploring one target makes of an outcome. -/
def visit (t : FileTree) (options : Options) (acc : Outcome) (target : Path) : Outcome :=
  match look t options acc.visited target with
  | .skipped e => { acc with log := acc.log ++ [e] }
  | .missed e => { acc with visited := mark acc.visited target.normalize, log := acc.log ++ [e] }
  | .readable text =>
    (explore t text target options acc.visited).1.under acc.analysis acc.log

section
variable {t : FileTree} {options : Options} {acc : Outcome} {target : Path}

theorem visit_skipped {e : Event} (h : look t options acc.visited target = .skipped e) :
    visit t options acc target = { acc with log := acc.log ++ [e] } := by
  simp only [visit, h]

theorem visit_missed {e : Event} (h : look t options acc.visited target = .missed e) :
    visit t options acc target =
      { acc with visited := mark acc.visited target.normalize, log := acc.log ++ [e] } := by
  simp only [visit, h]

/-- A target that is scanned is merged behind what was found before it. -/
theorem visit_readable {text : String}
    (h : look t options acc.visited target = .readable text) :
    visit t options acc target =
      (explore t text target options acc.visited).1.under acc.analysis acc.log := by
  simp only [visit, h]

end

theorem exploreAll_nil (t : FileTree) (options : Options) (acc : Outcome) :
    (exploreAll t options [] acc).1 = acc := by
  rw [exploreAll]

theorem exploreAll_cons (t : FileTree) (options : Options) (target : Path) (rest : List Path)
    (acc : Outcome) :
    (exploreAll t options (target :: rest) acc).1 =
      (exploreAll t options rest (visit t options acc target)).1 := by
  rw [exploreAll]
  split <;> rename_i h
  · rw [visit_skipped h]
  · rw [visit_missed h]
  · rw [visit_readable h]
    rfl

theorem explore_eq (t : FileTree) (source : String) (file : Path) (options : Options)
    (visited : List Path) :
    (explore t source file options visited).1 =
      (exploreAll t { options with isModuleEntry := false } (scan source file options).targets
        { analysis := (scan source file options).analysis
          visited := mark visited file.normalize
          log := (scan source file options).log }).1 := by
  rw [explore]

/-! ## Exploring under a root -/

theorem visit_moduleName (t : FileTree) (options : Options) (acc : Outcome) (target : Path) :
    (visit t options acc target).analysis.moduleName = acc.analysis.moduleName := by
  unfold visit
  split <;> rfl

/-- What is explored does not depend on what lies in front, and is merged behind it. -/
theorem visit_under (t : FileTree) (options : Options) (acc : Outcome) (target : Path)
    (a : Analysis) (log : List Event) (hacc : acc.analysis.moduleName = none) :
    visit t options (acc.under a log) target = (visit t options acc target).under a log := by
  have hvis : (acc.under a log).visited = acc.visited := rfl
  unfold visit
  rw [hvis]
  split
  · simp [Outcome.under]
  · simp [Outcome.under]
  · simp only [Outcome.under, List.append_assoc, Analysis.append_assoc _ _ _ hacc]

theorem exploreAll_under (t : FileTree) (options : Options) (targets : List Path) (acc : Outcome)
    (a : Analysis) (log : List Event) (hacc : acc.analysis.moduleName = none) :
    (exploreAll t options targets (acc.under a log)).1 =
      (exploreAll t options targets acc).1.under a log := by
  induction targets generalizing acc with
  | nil => rw [exploreAll_nil, exploreAll_nil]
  | cons target rest ih =>
    rw [exploreAll_cons, exploreAll_cons, visit_under t options acc target a log hacc]
    exact ih _ ((visit_moduleName t options acc target).trans hacc)

/-! ## The loop explores -/

/-- The loop takes the targets on top of its stack the way the recursion does. The induction is on
a bound for the files that are left, then on the targets: a file that is scanned uses up one. -/
theorem follow_append (t : FileTree) (options : Options) (ho : options.isModuleEntry = false)
    (bound : Nat) : ∀ (targets rest : List Path) (acc : Outcome), unvisited t acc.visited ≤ bound →
      follow t options (targets ++ rest) acc =
        follow t options rest (exploreAll t options targets acc).1 := by
  have hoff : { options with isModuleEntry := false } = options := by rw [← ho]
  induction bound using Nat.strongRecOn with
  | _ bound ihBound =>
  intro targets rest
  induction targets with
  | nil => intro acc _; rw [List.nil_append, exploreAll_nil]
  | cons target more ih =>
    intro acc hacc
    rw [List.cons_append, follow_cons, exploreAll_cons]
    split <;> rename_i hlook
    · rw [visit_skipped hlook]
      exact ih _ hacc
    · rw [visit_missed hlook]
      exact ih _ (Nat.le_trans (unvisited_mark_le t acc.visited target.normalize) hacc)
    · rename_i text
      rw [visit_readable hlook]
      obtain ⟨-, hnew, hread⟩ := look_readable hlook
      have hlt := unvisited_lt hnew hread
      -- the scanned file on its own, as the recursion starts it
      let own : Outcome :=
        { analysis := (scan text target options).analysis
          visited := mark acc.visited target.normalize
          log := (scan text target options).log }
      have hown : own.analysis.moduleName = none := scan_moduleName text target options ho
      have hsub : (explore t text target options acc.visited).1 =
          (exploreAll t options (scan text target options).targets own).1 := by
        rw [explore_eq, hoff]
      calc follow t options ((scan text target options).targets ++ (more ++ rest))
            (own.under acc.analysis acc.log)
          = follow t options (more ++ rest)
              (exploreAll t options (scan text target options).targets
                (own.under acc.analysis acc.log)).1 :=
            ihBound _ (Nat.lt_of_lt_of_le hlt hacc) _ _ _ (Nat.le_refl _)
        _ = follow t options (more ++ rest)
              ((explore t text target options acc.visited).1.under acc.analysis acc.log) := by
            rw [exploreAll_under t options _ own _ _ hown, hsub]
        _ = _ := by
            apply ih
            have hle := (explore t text target options acc.visited).2
            simp only [Outcome.under]
            omega

/-- **Following imports is depth-first recursion.** -/
theorem analyze_eq_explore (t : FileTree) (source : String) (file : Path) (options : Options)
    (visited : List Path) (hfollow : options.followImports = true) :
    analyze t source file options visited = (explore t source file options visited).1 := by
  have h := follow_append t { options with isModuleEntry := false } rfl _
    (scan source file options).targets []
    { analysis := (scan source file options).analysis
      visited := mark visited file.normalize
      log := (scan source file options).log } (Nat.le_refl _)
  rw [List.append_nil, follow_nil] at h
  rw [explore_eq, ← h]
  simp only [analyze, hfollow, ↓reduceIte]

/-- A tree in which two files pull in a third, which pulls in the first again and one that is
missing. -/
def diamond : FileTree :=
  { files := [
      (⟨"p/b.bmx"⟩, .text "Import \"sub/d.bmx\"\nRem\nbbdoc: B\nEnd Rem\nType B\nEnd Type\n"),
      (⟨"p/c.bmx"⟩, .text "Import \"./sub/../sub/d.bmx\"\nImport \"gone.bmx\"\n"),
      (⟨"p/sub/d.bmx"⟩, .text "Import \"../c.bmx\"\nInclude \"../a.bmx\"\nImport brl.math\n")] }

theorem analyze_eq_explore_diamond :
    ({ followImports := true, isModuleEntry := true } : Options).followImports = true ∧
      analyze diamond "Module M.A\nImport \"b.bmx\"\nInclude \"c.bmx\"\n" ⟨"p/a.bmx"⟩
          { followImports := true, isModuleEntry := true } [⟨"p/old.bmx"⟩] =
        (explore diamond "Module M.A\nImport \"b.bmx\"\nInclude \"c.bmx\"\n" ⟨"p/a.bmx"⟩
          { followImports := true, isModuleEntry := true } [⟨"p/old.bmx"⟩]).1 :=
  ⟨rfl, analyze_eq_explore diamond _ _ _ _ rfl⟩

end BlitzDoc.Imports
