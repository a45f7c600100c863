import BlitzDoc.Failure
import BlitzDoc.Source.Scan

/-!
# Following imports

Scans a source and, one after the other, the files that it pulls in, depth first and in the order of
the lines. A file is scanned at most once: its normalized path is marked before it is looked at. The
entries of a followed file come behind those of the file that pulled it in.

Every file that is scanned was not marked before, so the files that are left grow fewer
(`unvisited_lt`), and the search ends.
-/

namespace BlitzDoc.Imports

open Source (Options Scanned scan)

/-- The path is among the marked ones. -/
def isVisited (visited : List Path) (p : Path) : Bool :=
  visited.any fun q => q.same p

/-- Marks a path. -/
def mark (visited : List Path) (p : Path) : List Path :=
  if isVisited visited p then visited else visited ++ [p]

/-- The number of files that are not marked. -/
def unvisited (t : FileTree) (visited : List Path) : Nat :=
  t.files.countP fun f => !isVisited visited f.1

/-! ## The search gets shorter -/

theorem isVisited_mark (visited : List Path) (p q : Path) :
    isVisited (mark visited p) q = (isVisited visited q || (!isVisited visited p && p.same q)) := by
  cases h : isVisited visited p with
  | true => simp [mark, h]
  | false =>
    have hm : mark visited p = visited ++ [p] := by simp [mark, h]
    simp [hm, isVisited]

theorem unvisited_mark_le (t : FileTree) (visited : List Path) (p : Path) :
    unvisited t (mark visited p) ≤ unvisited t visited := by
  apply List.countP_mono_left
  intro f _ h
  simp only [isVisited_mark] at h
  simp_all

theorem countP_lt_of_mem {α : Type} {p q : α → Bool} {xs : List α} {x : α}
    (himp : ∀ y ∈ xs, p y = true → q y = true) (hx : x ∈ xs) (hp : p x = false) (hq : q x = true) :
    xs.countP p < xs.countP q := by
  induction xs with
  | nil => simp at hx
  | cons y ys ih =>
    have hle : ys.countP p ≤ ys.countP q :=
      List.countP_mono_left fun z hz => himp z (List.mem_cons_of_mem _ hz)
    rw [List.countP_cons, List.countP_cons]
    rcases List.mem_cons.1 hx with rfl | hx
    · simp only [hp, hq]
      simp
      omega
    · have hlt := ih (fun z hz => himp z (List.mem_cons_of_mem _ hz)) hx
      have hy := himp y List.mem_cons_self
      by_cases h : p y = true
      · simp [h, hy h]
        omega
      · simp only [h]
        simp
        omega

theorem mem_of_lookup {α β : Type} [BEq α] [LawfulBEq α] {xs : List (α × β)} {k : α} {v : β}
    (h : xs.lookup k = some v) : (k, v) ∈ xs := by
  induction xs with
  | nil => simp at h
  | cons x xs ih =>
    obtain ⟨a, b⟩ := x
    rw [List.lookup_cons] at h
    by_cases hk : (k == a) = true
    · simp only [hk] at h
      have hka := eq_of_beq hk
      simp_all
    · simp only [hk] at h
      exact List.mem_cons_of_mem _ (ih h)

theorem locate_eq_normalize {t : FileTree} {p place : Path} (h : t.locate p = .ok place) :
    place = p.normalize := by
  unfold FileTree.locate at h
  split at h
  · cases h
    rfl
  · split at h
    · cases h
    · cases hw : t.walk [] p.steps with
      | error e => simp [hw, bind, Except.bind] at h
      | ok done =>
        simp only [hw, bind, Except.bind] at h
        split at h
        · cases h
        · cases h
          rfl

/-- A file that can be read is one of the tree's files. -/
theorem mem_files_of_read {t : FileTree} {p : Path} {s : String} (h : t.read p = .ok s) :
    (p.normalize, Content.text s) ∈ t.files := by
  unfold FileTree.read at h
  cases hl : t.locate p with
  | error e => simp [hl, bind, Except.bind] at h
  | ok place =>
    simp only [hl, bind, Except.bind] at h
    have hplace := locate_eq_normalize hl
    cases hf : t.fileAt? place with
    | none =>
      simp only [hf] at h
      split at h <;> cases h
    | some content =>
      simp only [hf] at h
      cases content with
      | bytes raw => cases h
      | text u =>
        cases h
        exact hplace ▸ mem_of_lookup hf

/-- Marking a file that can be read, and was not marked, leaves fewer files. -/
theorem unvisited_lt {t : FileTree} {visited : List Path} {p : Path} {s : String}
    (hnew : isVisited visited p.normalize = false) (hread : t.read p = .ok s) :
    unvisited t (mark visited p.normalize) < unvisited t visited := by
  refine countP_lt_of_mem ?_ (mem_files_of_read hread) ?_ ?_
  · intro f _ h
    simp only [isVisited_mark] at h
    simp_all
  · simp [isVisited_mark, hnew, Path.same]
  · simp [hnew]

/-- A pair of numbers comes before another if neither grows and the second gets smaller. -/
theorem lex_of_le_of_lt {a b m n : Nat} (h : a ≤ b) (hlt : m < n) :
    Prod.Lex (· < ·) (· < ·) (a, m) (b, n) := by
  rcases Nat.lt_or_eq_of_le h with h | rfl
  · exact Prod.Lex.left _ _ h
  · exact Prod.Lex.right _ hlt

/-! ## The search -/

/-- The outcome of an analysis. -/
structure Outcome where
  analysis : Analysis
  visited : List Path
  log : List Event
deriving DecidableEq, Repr

/-- Follows the files on a stack. -/
def follow (t : FileTree) (options : Options) (stack : List Path) (acc : Outcome) : Outcome :=
  match stack with
  | [] => acc
  | target :: rest =>
    if !target.hasExtension options.extension then
      follow t options rest { acc with log := acc.log ++ [.foreignExtension target] }
    else if hnew : isVisited acc.visited target.normalize = true then
      follow t options rest { acc with log := acc.log ++ [.alreadyVisited target] }
    else
      let visited := mark acc.visited target.normalize
      have := unvisited_mark_le t acc.visited target.normalize
      if !t.exists? target then
        follow t options rest { acc with visited, log := acc.log ++ [.missingImport target] }
      else
        match hread : t.read target with
        | .error _ =>
          follow t options rest { acc with visited, log := acc.log ++ [.unreadableImport target] }
        | .ok text =>
          have := unvisited_lt (Bool.eq_false_iff.2 hnew) hread
          let child := scan text target options
          follow t options (child.targets ++ rest)
            { analysis := acc.analysis.append child.analysis, visited, log := acc.log ++ child.log }
termination_by (unvisited t acc.visited, stack.length)
decreasing_by
  · exact Prod.Lex.right _ (Nat.lt_succ_self _)
  · exact Prod.Lex.right _ (Nat.lt_succ_self _)
  · exact lex_of_le_of_lt (by assumption) (Nat.lt_succ_self _)
  · exact lex_of_le_of_lt (by assumption) (Nat.lt_succ_self _)
  · exact Prod.Lex.left _ _ (by assumption)

/-- Analyzes the text of a file. Paths in `visited` are not followed. -/
def analyze (t : FileTree) (source : String) (file : Path) (options : Options)
    (visited : List Path) : Outcome :=
  let root := scan source file options
  let start : Outcome :=
    { analysis := root.analysis, visited := mark visited file.normalize, log := root.log }
  if options.followImports then
    follow t { options with isModuleEntry := false } root.targets start
  else start

/-- Reads and analyzes a file. -/
def analyzeFile (t : FileTree) (file : Path) (options : Options) : Except Failure Outcome :=
  if !t.exists? file then .error (.sourceNotFound file)
  else
    match t.read file with
    | .error fault => .error (.access file fault)
    | .ok source => .ok (analyze t source file options [])

end BlitzDoc.Imports
