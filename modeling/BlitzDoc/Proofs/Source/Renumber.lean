import BlitzDoc.Proofs.Source.Turn

/-!
# Line numbers are only passed on

A scan records the numbers of lines and never computes with them. So it commutes with any change of
the numbering: `line_renumber` says so of one line, `lines_renumber` of lines that are numbered one
after the other in both ways, and `finish_renumber` of the end of a source. What a scan has recorded
are numbers of lines that it has read, and a change that keeps those keeps the state
(`renumber_lines_start`).
-/

namespace BlitzDoc

variable (ρ : Nat → Nat)

/-- The entry with the number of its line changed. -/
def DocEntry.renumber (e : DocEntry) : DocEntry :=
  { e with declaration := { e.declaration with line := ρ e.declaration.line } }

theorem Signature.read_line (raw : String) (file : Path) (n n' : Nat) :
    read raw file n' = ({ (read raw file n).1 with line := n' }, (read raw file n).2) := by
  simp only [read, State.finish, Declaration.layout]

/-- The event with the number of its line changed, if it has one. -/
def Event.renumber : Event → Event
  | .malformedSignature file line raw issue => .malformedSignature file (ρ line) raw issue
  | .entryDiscarded file line => .entryDiscarded file (ρ line)
  | .bodyWithoutEntry file line => .bodyWithoutEntry file (ρ line)
  | .unknownTag file line tag => .unknownTag file (ρ line) tag
  | .endWithoutAggregate file line => .endWithoutAggregate file (ρ line)
  | e => e

namespace Source

/-- The documentation text with the number of its line changed. -/
def OpenDoc.renumber (d : OpenDoc) : OpenDoc :=
  { d with line := ρ d.line }

/-- The declaration with the numbers of its lines changed. -/
def Unfinished.renumber (u : Unfinished) : Unfinished :=
  { u with doc := u.doc.renumber ρ, line := ρ u.line }

namespace State

/-- The state with all numbers of lines changed. -/
def renumber (s : State) : State :=
  { s with
    openDoc := s.openDoc.map (OpenDoc.renumber ρ)
    pending := s.pending.map (OpenDoc.renumber ρ)
    unfinished := s.unfinished.map (Unfinished.renumber ρ)
    result := { s.result with docs := s.result.docs.map (DocEntry.renumber ρ) }
    log := s.log.map (Event.renumber ρ) }

variable (s : State) (n : Nat)

theorem entryOf_renumber (doc : OpenDoc) (d : Declaration) :
    (entryOf doc d).renumber ρ = entryOf (doc.renumber ρ) { d with line := ρ d.line } := by
  simp only [entryOf, DocEntry.renumber, OpenDoc.renumber]

/-! ## Comments -/

theorem report_renumber (e : Event) : (s.report e).renumber ρ = (s.renumber ρ).report (e.renumber ρ) := by
  simp [report, renumber]

theorem discardPending_renumber :
    (s.discardPending n).renumber ρ = (s.renumber ρ).discardPending (ρ n) := by
  cases hpending : s.pending <;> simp [discardPending, renumber, report, hpending, Event.renumber]

theorem push_renumber (d : OpenDoc) (text : List Char) :
    (d.push text).renumber ρ = (d.renumber ρ).push text := by
  cases d with
  | mk line tag info about returns keyword => cases tag <;> rfl

theorem docLine_renumber (text : List Char) :
    (s.docLine n text).renumber ρ = (s.renumber ρ).docLine (ρ n) text := by
  cases hdoc : s.openDoc with
  | none => simp [docLine, renumber, report, hdoc, Event.renumber]
  | some d =>
    have htag : (d.renumber ρ).tag = d.tag := rfl
    unfold docLine
    simp only [renumber, hdoc, Option.map_some]
    split
    · split
      · rfl
      · rw [Option.map_some, push_renumber]
        rfl
      · rw [htag]
        split
        · rw [Option.map_some, push_renumber]
        · simp [report, hdoc, Event.renumber]
    · rw [Option.map_some, push_renumber]

theorem closeBlock_renumber : (s.closeBlock n).renumber ρ = (s.renumber ρ).closeBlock (ρ n) := by
  have hblocks : (s.renumber ρ).blocks = s.blocks := rfl
  unfold closeBlock
  rw [hblocks]
  dsimp only
  split
  · cases hdoc : s.openDoc with
    | none => simp [renumber, report, hdoc, Event.renumber]
    | some d =>
      have hkeyword : (d.renumber ρ).keyword = d.keyword := rfl
      simp only [renumber, hdoc, Option.map_some, hkeyword]
      cases d.keyword with
      | none => rfl
      | some keyword =>
        simp only [pushKeyword_eq, keywordDeclaration, List.map_append, List.map_singleton,
          entryOf_renumber, Declaration.layout]
        rfl
  · rfl

theorem blockLine_renumber (block : Block) (l : List Char) :
    (s.blockLine block n l).renumber ρ = (s.renumber ρ).blockLine block (ρ n) l := by
  unfold blockLine
  split
  · exact closeBlock_renumber ρ s n
  · dsimp only
    split
    · exact docLine_renumber ρ s n _
    · split
      · rfl
      · split
        · rfl
        · have hfirst : (s.renumber ρ).awaitingFirstLine = s.awaitingFirstLine := rfl
          rw [hfirst]
          split
          · exact report_renumber ρ { s with awaitingFirstLine := false } _
          · exact docLine_renumber ρ _ n _

/-! ## Code -/

theorem bind_renumber (doc : OpenDoc) (text : List Char) :
    (s.bind doc n text).renumber ρ = (s.renumber ρ).bind (doc.renumber ρ) (ρ n) text := by
  have hissues (file : Path) (raw : String) (issues : List Signature.Issue) :
      (issues.map (Event.malformedSignature file n raw)).map (Event.renumber ρ) =
        issues.map (Event.malformedSignature file (ρ n) raw) := by
    simp [Function.comp_def, Event.renumber]
  simp only [bind, pushEntry, renumber, List.map_append, List.map_singleton, hissues, entryOf_renumber,
    Signature.read_line _ _ n (ρ n)]
  simp only [Signature.read, Signature.State.finish]

theorem importLine_renumber (value : List Char) :
    (s.importLine value).renumber ρ = (s.renumber ρ).importLine value := by
  have hresolve : (s.renumber ρ).resolve = s.resolve := rfl
  unfold importLine
  rw [hresolve]
  split <;> rfl

theorem structureLine_renumber (code : List Char) (entry : Option Nat) :
    (s.structureLine n code entry).renumber ρ = (s.renumber ρ).structureLine (ρ n) code entry := by
  have haggregates : (s.renumber ρ).aggregates = s.aggregates := rfl
  have hrecords : (s.renumber ρ).recordsLinks = s.recordsLinks := rfl
  have hoptions : (s.renumber ρ).options = s.options := rfl
  unfold structureLine
  rw [haggregates, hrecords, hoptions]
  split
  · rfl
  · split
    · split
      · rfl
      · exact report_renumber ρ s _
    · split
      · split <;> rfl
      · split
        · split
          · exact importLine_renumber ρ s _
          · rfl
        · split
          · split <;> rfl
          · rfl

theorem declarationLine_renumber (doc : OpenDoc) (text : List Char) :
    (s.declarationLine doc n text).renumber ρ =
      (s.renumber ρ).declarationLine (doc.renumber ρ) (ρ n) text := by
  have hlength : (s.renumber ρ).result.docs.length = s.result.docs.length := List.length_map _
  unfold declarationLine
  rw [hlength]
  split
  · rfl
  · rw [structureLine_renumber, bind_renumber]

theorem codeLine_renumber (code : List Char) :
    (s.codeLine n code).renumber ρ = (s.renumber ρ).codeLine (ρ n) code := by
  cases hunfinished : s.unfinished with
  | some u =>
    have hmoved : (s.renumber ρ).unfinished = some (u.renumber ρ) := by simp [renumber, hunfinished]
    rw [codeLine_of_unfinished _ _ hunfinished, codeLine_of_unfinished _ _ hmoved]
    exact declarationLine_renumber ρ { s with unfinished := none } u.line u.doc _
  | none =>
    have hmoved : (s.renumber ρ).unfinished = none := by simp [renumber, hunfinished]
    cases hpending : s.pending with
    | some doc =>
      have hwaits : (s.renumber ρ).pending = some (doc.renumber ρ) := by simp [renumber, hpending]
      rw [codeLine_of_pending _ _ hunfinished hpending, codeLine_of_pending _ _ hmoved hwaits]
      exact declarationLine_renumber ρ { s with pending := none } n doc code
    | none =>
      have hwaits : (s.renumber ρ).pending = none := by simp [renumber, hpending]
      rw [codeLine_of_none _ _ hunfinished hpending, codeLine_of_none _ _ hmoved hwaits]
      exact structureLine_renumber ρ s n code none

/-! ## Lines -/

/-- **One line** passes its number on. -/
theorem line_renumber (l : List Char) : (s.line n l).renumber ρ = (s.renumber ρ).line (ρ n) l := by
  have hblocks : (s.renumber ρ).blocks = s.blocks := rfl
  unfold line
  rw [hblocks]
  split
  · exact blockLine_renumber ρ s n _ l
  · split
    · have hopened : State.renumber ρ
          { s.discardPending n with blocks := [.comment], awaitingFirstLine := true } =
            { (s.renumber ρ).discardPending (ρ n) with
              blocks := [.comment], awaitingFirstLine := true } := by
        rw [← discardPending_renumber]
        rfl
      dsimp only
      rw [← hopened]
      split
      · rfl
      · exact blockLine_renumber ρ _ n _ _
    · dsimp only
      split
      · rfl
      · split
        · exact discardPending_renumber ρ s n
        · exact codeLine_renumber ρ s n _

/-- **Lines** pass their numbers on, where these follow each other in both ways. -/
theorem lines_renumber (n' : Nat) (ls : List (List Char)) (hρ : ∀ i < ls.length, ρ (n + i) = n' + i) :
    (s.lines n ls).renumber ρ = (s.renumber ρ).lines n' ls := by
  induction ls generalizing s n n' with
  | nil => rfl
  | cons l ls ih =>
    have hfirst : ρ n = n' := hρ 0 (by simp)
    rw [lines, lines, ih (s.line n l) (n + 1) (n' + 1), line_renumber, hfirst]
    intro i hi
    have hnext := hρ (i + 1) (by simpa using hi)
    rw [Nat.add_right_comm, Nat.add_right_comm n']
    exact hnext

theorem settled_renumber : s.settled.renumber ρ = (s.renumber ρ).settled := by
  have hreport : State.renumber ρ (if s.blocks.isEmpty then s else s.report (.unterminatedBlock s.file)) =
      if (s.renumber ρ).blocks.isEmpty then s.renumber ρ
      else (s.renumber ρ).report (.unterminatedBlock (s.renumber ρ).file) := by
    rw [apply_ite (State.renumber ρ), report_renumber]
    rfl
  unfold settled
  dsimp only
  rw [← hreport]
  generalize (if s.blocks.isEmpty then s else s.report (.unterminatedBlock s.file)) = r
  cases hunfinished : r.unfinished with
  | some u =>
    have hmoved : (r.renumber ρ).unfinished = some (u.renumber ρ) := by simp [renumber, hunfinished]
    simp only [hmoved]
    exact bind_renumber ρ { r with unfinished := none } u.line u.doc u.text
  | none =>
    have hmoved : (r.renumber ρ).unfinished = none := by simp [renumber, hunfinished]
    simp only [hmoved]

theorem finish_renumber : s.finish.renumber ρ = (s.renumber ρ).finish := by
  have htagged (r : State) : r.tagged.renumber ρ = (r.renumber ρ).tagged := by
    have hname : (r.renumber ρ).result.moduleName = r.result.moduleName := rfl
    unfold tagged
    rw [hname]
    split
    · simp [renumber, DocEntry.renumber, Function.comp_def]
    · rfl
  rw [finish_eq, htagged, settled_renumber, finish_eq]

/-- What a scan has recorded are numbers of lines that it has read. -/
theorem renumber_lines_start (file : Path) (options : Options) (ls : List (List Char))
    (hρ : ∀ i ≤ ls.length, ρ i = i) :
    (State.lines { file, options } 1 ls).renumber ρ = State.lines { file, options } 1 ls :=
  lines_renumber ρ { file, options } 1 1 ls fun i hi => hρ (1 + i) (by omega)

end State

/-! ## Scans -/

/-- The outcome with all numbers of lines changed; everything else is as it was. -/
def Scanned.renumber (found : Scanned) : Scanned :=
  { found with
    analysis := { found.analysis with docs := found.analysis.docs.map (DocEntry.renumber ρ) }
    log := found.log.map (Event.renumber ρ) }

theorem scan_renumber {source source' : String} {file : Path} {options : Options}
    (h : lastState source file options = (lastState source' file options).renumber ρ) :
    scan source file options = (scan source' file options).renumber ρ := by
  rw [scan_eq, h, ← State.finish_renumber, scan_eq]
  rfl

end Source

end BlitzDoc
