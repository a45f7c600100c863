import BlitzDoc.Proofs.Path.Link
import BlitzDoc.Proofs.Source.Turn

/-!
# Links of a source

Which files a source names is decided by its text alone; the path under which it is scanned only says
what they are seen from. Two scans of one text run in step (`Alike`), whatever they had found before, and
so the targets are one list of names, each linked from the path (`exists_links`).
-/

namespace BlitzDoc.Source

namespace State

/-- Two states that read alike: they stand at the same point of a text and have found the same names
since, each linked from the path of its file. What they had found before, and all else, may differ. -/
def Alike (before before' : List Path) (s s' : State) : Prop :=
  ∃ file aggregates targets result log, ∃ names : List String,
    s' = { s with file, aggregates, targets, result, log } ∧
      s.targets = before ++ names.map s.file.linked ∧ targets = before' ++ names.map file.linked

section
variable {before before' : List Path} {s s' : State}

theorem alike_discardPending (h : Alike before before' s s') (n : Nat) :
    Alike before before' (s.discardPending n) (s'.discardPending n) := by
  obtain ⟨file, aggregates, targets, result, log, names, rfl, hs, hs'⟩ := h
  unfold discardPending
  dsimp only
  split <;> exact ⟨_, _, _, _, _, names, rfl, hs, hs'⟩

theorem alike_docLine (h : Alike before before' s s') (n : Nat) (text : List Char) :
    Alike before before' (s.docLine n text) (s'.docLine n text) := by
  obtain ⟨file, aggregates, targets, result, log, names, rfl, hs, hs'⟩ := h
  unfold docLine
  dsimp only
  split
  · exact ⟨_, _, _, _, _, names, rfl, hs, hs'⟩
  · split
    · split
      · exact ⟨_, _, _, _, _, names, rfl, hs, hs'⟩
      · exact ⟨_, _, _, _, _, names, rfl, hs, hs'⟩
      · split <;> exact ⟨_, _, _, _, _, names, rfl, hs, hs'⟩
    · exact ⟨_, _, _, _, _, names, rfl, hs, hs'⟩

theorem alike_closeBlock (h : Alike before before' s s') (n : Nat) :
    Alike before before' (s.closeBlock n) (s'.closeBlock n) := by
  obtain ⟨file, aggregates, targets, result, log, names, rfl, hs, hs'⟩ := h
  unfold closeBlock
  dsimp only
  split
  · split
    · split <;> exact ⟨_, _, _, _, _, names, rfl, hs, hs'⟩
    · exact ⟨_, _, _, _, _, names, rfl, hs, hs'⟩
  · exact ⟨_, _, _, _, _, names, rfl, hs, hs'⟩

theorem alike_blockLine (h : Alike before before' s s') (block : Block) (n : Nat) (l : List Char) :
    Alike before before' (s.blockLine block n l) (s'.blockLine block n l) := by
  unfold blockLine
  split
  · exact alike_closeBlock h n
  · dsimp only
    split
    · exact alike_docLine h n _
    · split
      · exact h
      · obtain ⟨file, aggregates, targets, result, log, names, rfl, hs, hs'⟩ := h
        dsimp only
        split
        · exact ⟨_, _, _, _, _, names, rfl, hs, hs'⟩
        · split
          · exact ⟨_, _, _, _, _, names, rfl, hs, hs'⟩
          · refine alike_docLine ?_ n _
            exact ⟨_, _, _, _, _, names, rfl, hs, hs'⟩

/-- Names that are found in both runs are linked from either path. -/
theorem alike_addLinks (h : Alike before before' s s') (more : List String) (a a' : Analysis) :
    Alike before before' { s with result := a, targets := s.targets ++ more.map s.resolve }
      { s' with result := a', targets := s'.targets ++ more.map s'.resolve } := by
  obtain ⟨file, aggregates, targets, result, log, names, rfl, hs, rfl⟩ := h
  refine ⟨_, _, _, _, _, names ++ more, rfl, ?_, ?_⟩
  · rw [hs, List.map_append, List.append_assoc]
    rfl
  · rw [List.map_append, List.append_assoc]
    rfl

theorem alike_importLine (h : Alike before before' s s') (value : List Char) :
    Alike before before' (s.importLine value) (s'.importLine value) := by
  unfold importLine
  cases hq : Line.quoted value with
  | nil =>
    obtain ⟨file, aggregates, targets, result, log, names, rfl, hs, hs'⟩ := h
    exact ⟨_, _, _, _, _, names, rfl, hs, hs'⟩
  | cons name names => exact alike_addLinks h (name :: names) _ _

theorem alike_structureLine (h : Alike before before' s s') (n : Nat) (code : List Char)
    (entry entry' : Option Nat) :
    Alike before before' (s.structureLine n code entry) (s'.structureLine n code entry') := by
  have halike := h
  obtain ⟨file, aggregates, targets, result, log, names, rfl, hs, hs'⟩ := h
  unfold structureLine recordsLinks
  split
  · exact ⟨_, _, _, _, _, names, rfl, hs, hs'⟩
  · split
    · -- the stacks of aggregates are not compared, so either may be empty
      split <;> split <;> exact ⟨_, _, _, _, _, names, rfl, hs, hs'⟩
    · split
      · split <;> exact ⟨_, _, _, _, _, names, rfl, hs, hs'⟩
      · split
        · split
          · exact alike_importLine halike _
          · exact halike
        · split
          · split
            · exact alike_addLinks halike _ _ _
            · exact halike
          · exact halike

theorem alike_bind (h : Alike before before' s s') (doc : OpenDoc) (n : Nat) (text : List Char) :
    Alike before before' (s.bind doc n text) (s'.bind doc n text) := by
  obtain ⟨file, aggregates, targets, result, log, names, rfl, hs, hs'⟩ := h
  exact ⟨_, _, _, _, _, names, rfl, hs, hs'⟩

theorem alike_declarationLine (h : Alike before before' s s') (doc : OpenDoc) (n : Nat) (text : List Char) :
    Alike before before' (s.declarationLine doc n text) (s'.declarationLine doc n text) := by
  unfold declarationLine
  split
  · obtain ⟨file, aggregates, targets, result, log, names, rfl, hs, hs'⟩ := h
    exact ⟨_, _, _, _, _, names, rfl, hs, hs'⟩
  · exact alike_structureLine (alike_bind h doc n text) n text _ _

theorem alike_codeLine (h : Alike before before' s s') (n : Nat) (code : List Char) :
    Alike before before' (s.codeLine n code) (s'.codeLine n code) := by
  obtain ⟨file, aggregates, targets, result, log, names, rfl, hs, hs'⟩ := h
  unfold codeLine
  dsimp only
  split
  · refine alike_declarationLine ?_ _ _ _
    exact ⟨_, _, _, _, _, names, rfl, hs, hs'⟩
  · split
    · refine alike_declarationLine ?_ _ _ _
      exact ⟨_, _, _, _, _, names, rfl, hs, hs'⟩
    · exact alike_structureLine ⟨_, _, _, _, _, names, rfl, hs, hs'⟩ n code _ _

/-- Two runs take a line in step. -/
theorem alike_line (h : Alike before before' s s') (n : Nat) (l : List Char) :
    Alike before before' (s.line n l) (s'.line n l) := by
  have hblocks : s'.blocks = s.blocks := by
    obtain ⟨file, aggregates, targets, result, log, names, rfl, hs, hs'⟩ := h
    rfl
  unfold line
  rw [hblocks]
  split
  · exact alike_blockLine h _ n l
  · split
    · have hrem : Alike before before'
          { s.discardPending n with blocks := [.comment], awaitingFirstLine := true }
          { s'.discardPending n with blocks := [.comment], awaitingFirstLine := true } := by
        obtain ⟨_, _, _, _, _, names, he, hs, hs'⟩ := alike_discardPending h n
        rw [he]
        exact ⟨_, _, _, _, _, names, rfl, hs, hs'⟩
      dsimp only
      split
      · exact hrem
      · exact alike_blockLine hrem _ n _
    · dsimp only
      split
      · exact h
      · split
        · exact alike_discardPending h n
        · exact alike_codeLine h n _

theorem alike_lines (h : Alike before before' s s') (ls : List (List Char)) (n : Nat) :
    Alike before before' (s.lines n ls) (s'.lines n ls) := by
  induction ls generalizing s s' n with
  | nil => exact h
  | cons l ls ih => exact ih (alike_line h n l) (n + 1)

end

/-- The end of a source adds no targets. -/
theorem finish_targets (s : State) : s.finish.targets = s.targets := by
  have htag : ∀ r : State, r.tagged.targets = r.targets := by
    intro r
    unfold tagged
    split <;> rfl
  obtain ⟨s', hsame, hs | ⟨doc, n, text, hs⟩⟩ := settled_cases s
  · rw [finish_eq, htag, hs, hsame.targets]
  · rw [finish_eq, htag, hs]
    exact hsame.targets

end State

/-- **The targets of a source** are names that only depend on its text, linked from its path. -/
theorem exists_links (source : String) (options : Options) (file file' : Path) :
    ∃ names : List String, (scan source file options).targets = names.map file.linked ∧
      (scan source file' options).targets = names.map file'.linked := by
  have hstart : State.Alike [] [] { file, options } { file := file', options } :=
    ⟨_, _, _, _, _, [], rfl, rfl, rfl⟩
  obtain ⟨f, _, _, _, _, names, he, hs, hs'⟩ :=
    State.alike_lines hstart (Text.lines source.toList) 1
  have hf : f = file' := by
    have hfile := State.lines_file { file := file', options } 1 (Text.lines source.toList)
    rwa [he] at hfile
  refine ⟨names, ?_, ?_⟩
  · rw [scan_eq, State.finish_targets, lastState, hs, State.lines_file, List.nil_append]
  · rw [scan_eq, State.finish_targets, lastState, he, ← hf]
    exact hs'

end BlitzDoc.Source
