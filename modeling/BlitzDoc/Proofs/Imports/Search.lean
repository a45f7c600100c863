import BlitzDoc.Imports
import Mathlib.Logic.Relation

/-!
# The search for imports, turn by turn

`Imports.follow` is a loop over a stack of paths. Here one turn of that loop is a function on its
state (`Search.turn`), and the state also keeps which files were scanned. Every turn makes the state
smaller (`turn_lt`), so every search comes to an end (`exists_final`), and what it ends with is what
`follow` returns (`follow_of_reaches`). Statements about whole searches are proved over turns with
`reaches_induction`.
-/

namespace BlitzDoc.Imports

open Source (Options Scanned scan)

/-! ## One target -/

/-- What a search makes of a target. -/
inductive Sight where
  /-- It is passed over: its extension is foreign, or it was marked before. -/
  | skipped (event : Event)
  /-- It is marked, but there is no text to be had. -/
  | missed (event : Event)
  /-- It is marked and scanned. -/
  | readable (text : String)

/-- Looks at a target while the paths in `visited` are marked. -/
def look (t : FileTree) (options : Options) (visited : List Path) (target : Path) : Sight :=
  if !target.hasExtension options.extension then .skipped (.foreignExtension target)
  else if isVisited visited target.normalize then .skipped (.alreadyVisited target)
  else if !t.exists? target then .missed (.missingImport target)
  else
    match t.read target with
    | .error _ => .missed (.unreadableImport target)
    | .ok text => .readable text

section
variable {t : FileTree} {options : Options} {visited : List Path} {target : Path}

theorem look_skipped {e : Event} (h : look t options visited target = .skipped e) :
    target.hasExtension options.extension = false ∨ isVisited visited target.normalize = true := by
  unfold look at h
  split at h
  · rename_i hext; exact Or.inl (by simpa using hext)
  · split at h
    · rename_i hvis; exact Or.inr hvis
    · split at h
      · cases h
      · split at h <;> cases h

/-- A text that can be read belongs to a file that is there. -/
theorem exists_of_read {s : String} (h : t.read target = .ok s) : t.exists? target = true := by
  unfold FileTree.read at h
  unfold FileTree.exists? FileTree.isFile
  cases hl : t.locate target with
  | error e => simp [hl, bind, Except.bind] at h
  | ok place =>
    simp only [hl, bind, Except.bind] at h
    cases hf : t.fileAt? place with
    | none => simp only [hf] at h; split at h <;> cases h
    | some content => simp [hf]

theorem look_missed {e : Event} (h : look t options visited target = .missed e) :
    target.hasExtension options.extension = true ∧ isVisited visited target.normalize = false ∧
      ∀ s, t.read target ≠ .ok s := by
  unfold look at h
  split at h
  · cases h
  · rename_i hext
    split at h
    · cases h
    · rename_i hvis
      refine ⟨by simpa using hext, by simpa using hvis, ?_⟩
      intro s hs
      split at h
      · rename_i hmiss; rw [exists_of_read hs] at hmiss; cases hmiss
      · rw [hs] at h; cases h

theorem look_readable {s : String} (h : look t options visited target = .readable s) :
    target.hasExtension options.extension = true ∧ isVisited visited target.normalize = false ∧
      t.read target = .ok s := by
  unfold look at h
  split at h
  · cases h
  · rename_i hext
    split at h
    · cases h
    · rename_i hvis
      refine ⟨by simpa using hext, by simpa using hvis, ?_⟩
      split at h
      · cases h
      · split at h
        · cases h
        · rename_i hr; cases h; exact hr

end

/-- The loop on a stack that is not empty, by what it makes of the target on top. -/
theorem follow_cons (t : FileTree) (options : Options) (target : Path) (rest : List Path)
    (acc : Outcome) :
    follow t options (target :: rest) acc =
      match look t options acc.visited target with
      | .skipped e => follow t options rest { acc with log := acc.log ++ [e] }
      | .missed e =>
        follow t options rest
          { acc with visited := mark acc.visited target.normalize, log := acc.log ++ [e] }
      | .readable text =>
        follow t options ((scan text target options).targets ++ rest)
          { analysis := acc.analysis.append (scan text target options).analysis
            visited := mark acc.visited target.normalize
            log := acc.log ++ (scan text target options).log } := by
  rw [follow, look]
  by_cases hext : (!target.hasExtension options.extension) = true
  · simp only [hext, ↓reduceIte]
  · by_cases hvis : isVisited acc.visited target.normalize = true
    · simp only [hext, hvis, ↓reduceIte, ↓reduceDIte, Bool.false_eq_true]
    · by_cases hmiss : (!t.exists? target) = true
      · simp only [hext, hvis, hmiss, ↓reduceIte, ↓reduceDIte, Bool.false_eq_true]
      · simp only [hext, hvis, hmiss, ↓reduceIte, ↓reduceDIte, Bool.false_eq_true]
        split <;> rename_i hr <;> simp only [hr]

theorem follow_nil (t : FileTree) (options : Options) (acc : Outcome) :
    follow t options [] acc = acc := by
  rw [follow]

/-! ## Turns -/

/-- A text that is scanned as the content of a file. -/
structure Reading where
  text : String
  file : Path
  options : Options

namespace Reading

/-- What the scan of the text gives. -/
def scanned (r : Reading) : Scanned :=
  scan r.text r.file r.options

/-- The place of the file, the same for all spellings of its path. -/
def place (r : Reading) : Path :=
  r.file.normalize

end Reading

/-- The state of the loop, with the files that were scanned so far. -/
structure Search where
  stack : List Path
  outcome : Outcome
  scanned : List Reading

namespace Search

/-- Passes over the target on top of the stack. -/
def skip (s : Search) (rest : List Path) (e : Event) : Search :=
  { s with stack := rest, outcome := { s.outcome with log := s.outcome.log ++ [e] } }

/-- Marks the target on top of the stack, of which there is no text. -/
def miss (s : Search) (target : Path) (rest : List Path) (e : Event) : Search :=
  { s with
    stack := rest
    outcome := { s.outcome with
      visited := mark s.outcome.visited target.normalize, log := s.outcome.log ++ [e] } }

/-- Marks and scans the target on top of the stack. -/
def take (s : Search) (r : Reading) (rest : List Path) : Search :=
  { stack := r.scanned.targets ++ rest
    outcome := {
      analysis := s.outcome.analysis.append r.scanned.analysis
      visited := mark s.outcome.visited r.place
      log := s.outcome.log ++ r.scanned.log }
    scanned := s.scanned ++ [r] }

/-- One turn of the loop; there is none when the stack is empty. -/
def turn (t : FileTree) (options : Options) (s : Search) : Option Search :=
  match s.stack with
  | [] => none
  | target :: rest =>
    match look t options s.outcome.visited target with
    | .skipped e => some (s.skip rest e)
    | .missed e => some (s.miss target rest e)
    | .readable text => some (s.take ⟨text, target, options⟩ rest)

variable {t : FileTree} {options : Options} {s s' : Search}

/-- **What one turn can do**, with what it knows of the target. -/
theorem turn_cases (h : s.turn t options = some s') :
    ∃ target rest, s.stack = target :: rest ∧
      ((∃ e, (target.hasExtension options.extension = false ∨
          isVisited s.outcome.visited target.normalize = true) ∧ s' = s.skip rest e) ∨
        (target.hasExtension options.extension = true ∧
          isVisited s.outcome.visited target.normalize = false ∧
          ((∃ e, (∀ text, t.read target ≠ .ok text) ∧ s' = s.miss target rest e) ∨
            ∃ text, t.read target = .ok text ∧ s' = s.take ⟨text, target, options⟩ rest))) := by
  unfold turn at h
  split at h
  · cases h
  · rename_i target rest hs
    refine ⟨target, rest, hs, ?_⟩
    split at h <;> rename_i hl <;> cases h
    · exact Or.inl ⟨_, look_skipped hl, rfl⟩
    · obtain ⟨h1, h2, h3⟩ := look_missed hl
      exact Or.inr ⟨h1, h2, Or.inl ⟨_, h3, rfl⟩⟩
    · obtain ⟨h1, h2, h3⟩ := look_readable hl
      exact Or.inr ⟨h1, h2, Or.inr ⟨_, h3, rfl⟩⟩

theorem turn_eq_none_iff : s.turn t options = none ↔ s.stack = [] := by
  unfold turn
  split
  · rename_i h; simp [h]
  · rename_i h
    simp only [h, reduceCtorEq, iff_false]
    split <;> simp

/-- A turn does not change what the loop returns. -/
theorem follow_of_turn (h : s.turn t options = some s') :
    follow t options s.stack s.outcome = follow t options s'.stack s'.outcome := by
  unfold turn at h
  split at h
  · cases h
  · rename_i hs
    rw [hs, follow_cons]
    split at h <;> cases h <;> rfl

/-! ## Runs -/

/-- The files that are left, then the length of the stack. -/
def size (t : FileTree) (s : Search) : Nat × Nat :=
  (unvisited t s.outcome.visited, s.stack.length)

theorem turn_lt (h : s.turn t options = some s') :
    Prod.Lex (· < ·) (· < ·) (s'.size t) (s.size t) := by
  obtain ⟨target, rest, hs, h⟩ := turn_cases h
  have hlen : rest.length < s.stack.length := by rw [hs]; exact Nat.lt_succ_self _
  rcases h with ⟨e, -, rfl⟩ | ⟨-, hnew, ⟨e, -, rfl⟩ | ⟨text, hread, rfl⟩⟩
  · exact Prod.Lex.right _ hlen
  · exact lex_of_le_of_lt (unvisited_mark_le t s.outcome.visited target.normalize) hlen
  · exact Prod.Lex.left _ _ (unvisited_lt hnew hread)

/-- One state comes to another after some turns. -/
def Reaches (t : FileTree) (options : Options) : Search → Search → Prop :=
  Relation.ReflTransGen fun s s' => s.turn t options = some s'

/-- **The search ends**: from every state, after finitely many turns, the stack is empty. -/
theorem exists_final (t : FileTree) (options : Options) (s : Search) :
    ∃ final, s.Reaches t options final ∧ final.stack = [] := by
  induction s using (InvImage.wf (size t) (Prod.lex Nat.lt_wfRel Nat.lt_wfRel).wf).induction with
  | _ s ih =>
  cases h : s.turn t options with
  | none => exact ⟨s, .refl, turn_eq_none_iff.1 h⟩
  | some s' =>
    obtain ⟨final, hreach, hend⟩ := ih s' (turn_lt h)
    exact ⟨final, .head h hreach, hend⟩

/-- What holds at the start and survives a turn holds of every state that is reached. -/
theorem reaches_induction {P : Search → Prop}
    (hturn : ∀ s s', P s → s.turn t options = some s' → P s')
    (hreach : s.Reaches t options s') (h : P s) : P s' := by
  induction hreach with
  | refl => exact h
  | tail _ hstep ih => exact hturn _ _ ih hstep

/-- The outcome at the end of a search is what the loop returns. -/
theorem follow_of_reaches (hreach : s.Reaches t options s') (hend : s'.stack = []) :
    follow t options s.stack s.outcome = s'.outcome := by
  have h := reaches_induction
    (P := fun s' => follow t options s.stack s.outcome = follow t options s'.stack s'.outcome)
    (fun _ _ h hstep => h.trans (follow_of_turn hstep)) hreach rfl
  rw [h, hend, follow_nil]

/-- The search after so many turns, or at its end if that comes first. -/
def after (t : FileTree) (options : Options) : Nat → Search → Search
  | 0, s => s
  | n + 1, s =>
    match s.turn t options with
    | none => s
    | some s' => s'.after t options n

theorem reaches_after (t : FileTree) (options : Options) (n : Nat) (s : Search) :
    s.Reaches t options (s.after t options n) := by
  induction n generalizing s with
  | zero => exact .refl
  | succ n ih =>
    rw [after]
    split
    · exact .refl
    · rename_i s' hturn
      exact .head hturn (ih s')

/-- The search of an analysis, before its first turn. -/
def start (source : String) (file : Path) (options : Options) (marked : List Path) : Search :=
  { stack := (scan source file options).targets
    outcome := {
      analysis := (scan source file options).analysis
      visited := mark marked file.normalize
      log := (scan source file options).log }
    scanned := [⟨source, file, options⟩] }

end Search

/-- The search that an analysis makes: it goes on to the end, or, when imports are not followed, stays
at its start. -/
theorem exists_search (t : FileTree) (source : String) (file : Path) (options : Options)
    (marked : List Path) :
    ∃ final : Search,
      (Search.start source file options marked).Reaches t { options with isModuleEntry := false } final ∧
      final.outcome = analyze t source file options marked ∧
      (options.followImports = true → final.stack = []) ∧
      (options.followImports = false → final = Search.start source file options marked) := by
  by_cases hfollow : options.followImports = true
  · obtain ⟨final, hreach, hend⟩ := Search.exists_final t { options with isModuleEntry := false }
      (Search.start source file options marked)
    refine ⟨final, hreach, ?_, fun _ => hend, fun h => by simp [hfollow] at h⟩
    rw [← Search.follow_of_reaches hreach hend]
    simp only [analyze, hfollow, ↓reduceIte]
    rfl
  · refine ⟨_, .refl, ?_, fun h => absurd h hfollow, fun _ => rfl⟩
    simp only [analyze, hfollow]
    rfl

/-- The search that the analysis of a file makes, after so many turns. -/
def searchAfter (t : FileTree) (n : Nat) (source : String) (file : Path) (options : Options) : Search :=
  (Search.start source file options []).after t { options with isModuleEntry := false } n

/-- **An analysis by turns**: it gives what its search has found once no target is left. -/
theorem analyzeFile_of_searchAfter {t : FileTree} {source : String} {file : Path} {options : Options}
    (hread : t.read file = .ok source) (hfollow : options.followImports = true) {n : Nat}
    (hend : (searchAfter t n source file options).stack = []) :
    analyzeFile t file options = .ok (searchAfter t n source file options).outcome := by
  have hanalyze : analyze t source file options [] = (searchAfter t n source file options).outcome := by
    rw [searchAfter, ← Search.follow_of_reaches (Search.reaches_after t _ n _) hend]
    simp only [analyze, hfollow, if_true]
    rfl
  simp [analyzeFile, exists_of_read hread, hread, hanalyze]

end BlitzDoc.Imports
