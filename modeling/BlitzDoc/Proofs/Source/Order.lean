import BlitzDoc.Proofs.Source.Blocks
import BlitzDoc.Proofs.Source.Parents

/-!
# The order of entries

Entries are added when a declaration is complete or when the block of a keyword ends, each with a line
that was read before. They come in the order of their lines as long as no keyword ends while a
declaration goes on; such a keyword is entered first, though the declaration started above it.
`scan_inOrder_iff` says that this is the only way in which the order is lost, and that no two entries
have the same line. `scan_keyword_within` is a source with such a keyword.

The proof keeps a `Diary` of a scan, the line numbers that matter to the order. A declaration that goes
on counts as entered from its first line on (`Diary.due`), so that completing it changes nothing.
-/

namespace BlitzDoc.Source

/-! ## Diaries -/

/-- The lines of what a scan has found and has in hand. -/
structure Diary where
  entries : List Nat
  /-- The first line of a declaration that goes on. -/
  unfinished : Option Nat
  /-- The first line of a documentation text that is being read. -/
  reading : Option Nat

namespace Diary

/-- The lines of the entries, if the source ended here. -/
def due (d : Diary) : List Nat :=
  d.entries ++ d.unfinished.toList

/-- Nothing is entered, and the text that is being read, if any, is the same or starts at `n`. -/
structure Quiet (d : Diary) (n : Nat) (d' : Diary) : Prop where
  due : d'.due = d.due
  reading : ∀ m, d'.reading = some m → d.reading = some m ∨ m = n

/-- What the line with number `n` does to a diary; a keyword is entered only if the line ends one. -/
inductive Step (d : Diary) (n : Nat) : (endsKeyword : Bool) → Diary → Prop
  | quiet {d' : Diary} (h : Quiet d n d') : Step d n false d'
  | declared {d' : Diary} (hdue : d'.due = d.due ++ [n]) (hreading : d'.reading = none) :
      Step d n false d'
  | keyword (m : Nat) (hreading : d.reading = some m) :
      Step d n true { d with entries := d.entries ++ [m], reading := none }

/-- All lines are before `n`, and the text that is being read started behind all entries. -/
structure Timely (d : Diary) (n : Nat) : Prop where
  due : ∀ m ∈ d.due, m < n
  reading : ∀ m, d.reading = some m → m < n ∧ ∀ k ∈ d.due, k < m

theorem Quiet.refl (d : Diary) (n : Nat) : Quiet d n d :=
  ⟨rfl, fun _ hm => .inl hm⟩

section
variable {d d' : Diary} {n : Nat} {endsKeyword : Bool}

theorem Step.timely (hstep : Step d n endsKeyword d') (h : Timely d n) : Timely d' (n + 1) := by
  cases hstep with
  | quiet hquiet =>
    refine ⟨fun m hm => ?_, fun m hm => ?_⟩
    · rw [hquiet.due] at hm
      exact Nat.lt_succ_of_lt (h.due m hm)
    · rw [hquiet.due]
      rcases hquiet.reading m hm with hm | rfl
      · exact ⟨Nat.lt_succ_of_lt (h.reading m hm).1, (h.reading m hm).2⟩
      · exact ⟨Nat.lt_succ_self m, h.due⟩
  | declared hdue hreading =>
    refine ⟨fun m hm => ?_, fun m hm => ?_⟩
    · rw [hdue] at hm
      rcases List.mem_append.1 hm with hm | hm
      · exact Nat.lt_succ_of_lt (h.due m hm)
      · rw [List.mem_singleton.1 hm]
        exact Nat.lt_succ_self n
    · rw [hreading] at hm
      cases hm
  | keyword k hreading =>
    refine ⟨fun m hm => ?_, by simp⟩
    have hm : m ∈ d.due ∨ m = k := by
      simp only [due, List.mem_append, List.mem_singleton] at hm ⊢
      rcases hm with (hm | hm) | hm
      · exact .inl (.inl hm)
      · exact .inr hm
      · exact .inl (.inr hm)
    rcases hm with hm | rfl
    · exact Nat.lt_succ_of_lt (h.due m hm)
    · exact Nat.lt_succ_of_lt (h.reading m hreading).1

theorem pairwise_concat {lines : List Nat} {m : Nat} (h : ∀ k ∈ lines, k < m) :
    (lines ++ [m]).Pairwise (· < ·) ↔ lines.Pairwise (· < ·) := by
  rw [List.pairwise_append]
  exact ⟨fun hall => hall.1, fun hlines => ⟨hlines, List.pairwise_singleton _ _, by simpa using h⟩⟩

/-- **The order is lost** exactly where a keyword ends while a declaration goes on. -/
theorem Step.pairwise_iff (hstep : Step d n endsKeyword d') (h : Timely d n) :
    d'.due.Pairwise (· < ·) ↔
      d.due.Pairwise (· < ·) ∧ (endsKeyword && d.unfinished.isSome) = false := by
  cases hstep with
  | quiet hquiet => simp [hquiet.due]
  | declared hdue hreading => simp [hdue, pairwise_concat h.due]
  | keyword m hreading =>
    have hbefore := (h.reading m hreading).2
    cases hunfinished : d.unfinished with
    | none =>
      simp only [due, hunfinished, Option.toList_none, List.append_nil] at hbefore ⊢
      simp [pairwise_concat hbefore]
    | some u =>
      have hu : u < m := hbefore u (by simp [due, hunfinished])
      have hlost : ¬ (d.entries ++ [m, u]).Pairwise (· < ·) := by
        intro hall
        have hlast := List.rel_of_pairwise_cons (List.pairwise_append.1 hall).2.1 (List.mem_singleton_self u)
        omega
      simp [due, hunfinished, hlost]

theorem Step.nodup (hstep : Step d n endsKeyword d') (h : Timely d n) (hdue : d.due.Nodup) :
    d'.due.Nodup := by
  have hconcat {lines : List Nat} {m : Nat} (hlines : lines.Nodup) (hm : ∀ k ∈ lines, k < m) :
      (m :: lines).Nodup :=
    List.nodup_cons.2 ⟨fun hmem => Nat.lt_irrefl m (hm m hmem), hlines⟩
  cases hstep with
  | quiet hquiet => rwa [hquiet.due]
  | declared heq hreading =>
    rw [heq, (List.perm_append_singleton n d.due).nodup_iff]
    exact hconcat hdue h.due
  | keyword m hreading =>
    have hperm : (d.entries ++ [m] ++ d.unfinished.toList).Perm (m :: d.due) := by
      rw [List.append_assoc, List.singleton_append]
      exact List.perm_middle
    exact hperm.nodup_iff.2 (hconcat hdue (h.reading m hreading).2)

end

end Diary

namespace State

/-- The diary of a scan. -/
def diary (s : State) : Diary where
  entries := s.result.docs.map (·.declaration.line)
  unfinished := s.unfinished.map (·.line)
  reading := s.openDoc.map (·.line)

/-! ### The parts of a line -/

section
variable (s : State) (n : Nat)

theorem diary_discardPending : (s.discardPending n).diary = s.diary := by
  unfold discardPending
  split <;> rfl

theorem diary_docLine (text : List Char) : (s.docLine n text).diary = s.diary := by
  rcases docLine_cases s n text with ⟨-, hline⟩ | ⟨doc, hdoc, ⟨doc', hline, hstart⟩ | ⟨name, hline⟩⟩
  · rw [hline]
    rfl
  · rw [hline]
    simp [diary, hdoc, hstart]
  · rw [hline]
    rfl

theorem diary_structureLine (code : List Char) (entry : Option Nat) :
    (s.structureLine n code entry).diary = s.diary := by
  obtain ⟨aggregates, targets, result, events, hline, hdocs, -⟩ := structureLine_frame s n code entry
  rw [hline]
  simp only [diary, hdocs]

theorem diary_bind (doc : OpenDoc) (text : List Char) :
    (s.bind doc n text).diary = { s.diary with entries := s.diary.entries ++ [n] } := by
  have hline : (entryOf doc (s.declared n text)).declaration.line = n := rfl
  have hunfinished : (s.bind doc n text).unfinished = s.unfinished := rfl
  have hopenDoc : (s.bind doc n text).openDoc = s.openDoc := rfl
  simp only [diary, bind_result, List.map_append, List.map_singleton, hline, hunfinished, hopenDoc]

/-- A declaration is due from its first line on. -/
theorem diary_declarationLine (doc : OpenDoc) (text : List Char) (h : s.unfinished = none) :
    (s.declarationLine doc n text).diary.due = s.diary.due ++ [n] ∧
      (s.declarationLine doc n text).diary.reading = s.diary.reading := by
  unfold declarationLine
  split
  · simp [diary, Diary.due, h]
  · rw [diary_structureLine, diary_bind]
    simp [diary, Diary.due, h]

theorem quiet_blockLine_comment (h : s.blocks.head? = some .comment) (l : List Char) :
    Diary.Quiet s.diary n (s.blockLine .comment n l).diary := by
  unfold blockLine
  split
  · simp only [closeBlock, h]
    exact .refl s.diary n
  · dsimp only
    split
    · exact .refl s.diary n
    · split
      · exact .refl s.diary n
      · split
        · exact .refl s.diary n
        · rw [diary_docLine]
          refine ⟨rfl, fun m hm => .inr ?_⟩
          exact (Option.some.inj hm).symm

/-- A line of code declares what waits for it, or goes on with a declaration that is due already. -/
theorem diary_codeLine (code : List Char) :
    ((s.codeLine n code).diary.due = s.diary.due ∨
        (s.codeLine n code).diary.due = s.diary.due ++ [n]) ∧
      (s.codeLine n code).diary.reading = s.diary.reading := by
  cases hunfinished : s.unfinished with
  | some u =>
    rw [codeLine_of_unfinished _ _ hunfinished]
    obtain ⟨hdue, hreading⟩ := diary_declarationLine { s with unfinished := none } u.line u.doc
      (u.text ++ ' ' :: code) rfl
    refine ⟨.inl ?_, hreading⟩
    rw [hdue]
    simp [diary, Diary.due, hunfinished]
  | none =>
    cases hpending : s.pending with
    | some doc =>
      rw [codeLine_of_pending _ _ hunfinished hpending]
      obtain ⟨hdue, hreading⟩ := diary_declarationLine { s with pending := none } n doc code hunfinished
      exact ⟨.inr hdue, hreading⟩
    | none =>
      rw [codeLine_of_none _ _ hunfinished hpending, diary_structureLine]
      exact ⟨.inl rfl, rfl⟩

end

/-! ### One line -/

/-- The end of a `bbdoc:` block enters a keyword, or leaves the entries alone. -/
theorem diary_closeBlock_doc {s : State} (hblocks : s.blocks.head? = some .doc)
    (hreading : s.openDoc.isSome) {l : List Char} (hend : Line.isEndRem l = true) (n : Nat) :
    Diary.Step s.diary n (s.endsKeyword l) (s.closeBlock n).diary := by
  obtain ⟨doc, hdoc⟩ := Option.isSome_iff_exists.1 hreading
  cases hkeyword : doc.keyword with
  | some keyword =>
    have hends : s.endsKeyword l = true := by simp [endsKeyword, hblocks, hend, hdoc, hkeyword]
    have hdiary : (s.closeBlock n).diary =
        { s.diary with entries := s.diary.entries ++ [doc.line], reading := none } := by
      simp only [closeBlock, hblocks, hdoc, hkeyword, if_true, pushKeyword_eq, diary, List.map_append,
        List.map_singleton, Option.map_none]
      rfl
    rw [hends, hdiary]
    exact .keyword doc.line (by simp [diary, hdoc])
  | none =>
    have hends : s.endsKeyword l = false := by simp [endsKeyword, hdoc, hkeyword]
    have hdiary : (s.closeBlock n).diary = { s.diary with reading := none } := by
      simp only [closeBlock, hblocks, hdoc, hkeyword, if_true, diary, Option.map_none]
    rw [hends, hdiary]
    exact .quiet ⟨rfl, by simp⟩

/-- **One line** takes a step of the diary. -/
theorem diary_line {s : State} (h : s.ledger.Orderly) (n : Nat) (l : List Char) :
    Diary.Step s.diary n (s.endsKeyword l) (s.line n l).diary := by
  cases hblocks : s.blocks with
  | cons block rest =>
    have hline : s.line n l = s.blockLine block n l := by simp only [line, hblocks]
    rw [hline]
    cases block with
    | comment =>
      have hends : s.endsKeyword l = false := by simp [endsKeyword, hblocks]
      rw [hends]
      exact .quiet (quiet_blockLine_comment s n (by rw [hblocks]; rfl) l)
    | doc =>
      have hdoc : s.blocks.head? = some .doc := by rw [hblocks]; rfl
      unfold blockLine
      split
      · rename_i hend
        exact diary_closeBlock_doc hdoc (h.reading.1 hdoc) hend n
      · rename_i hend
        have hends : s.endsKeyword l = false := by simp [endsKeyword, hend]
        rw [hends, diary_docLine]
        exact .quiet (.refl s.diary n)
  | nil =>
    have hends : s.endsKeyword l = false := by simp [endsKeyword, hblocks]
    have hreading : s.diary.reading = none := by
      have hiff := h.reading
      simpa [ledger, diary, hblocks] using hiff
    rw [hends]
    simp only [line, hblocks]
    split
    · have hopened : ({ s.discardPending n with blocks := [.comment], awaitingFirstLine := true } :
          State).diary = s.diary := diary_discardPending s n
      split
      · rw [hopened]
        exact .quiet (.refl s.diary n)
      · rw [← hopened]
        exact .quiet (quiet_blockLine_comment _ n rfl _)
    · split
      · exact .quiet (.refl s.diary n)
      · split
        · rw [diary_discardPending]
          exact .quiet (.refl s.diary n)
        · obtain ⟨hdue, hread⟩ := diary_codeLine s n
            (Line.stripComment (Text.dropBlanksEnd (Text.dropBlanks l)))
          rw [hreading] at hread
          rcases hdue with hdue | hdue
          · exact .quiet ⟨hdue, by simp [hread]⟩
          · exact .declared hdue hread

/-! ### Runs of lines -/

/-- No keyword ends while a declaration goes on. -/
def keywordsApart (s : State) (n : Nat) : List (List Char) → Bool
  | [] => true
  | l :: ls => !(s.endsKeyword l && s.unfinished.isSome) && (s.line n l).keywordsApart (n + 1) ls

/-- **Lines** keep the order exactly as long as keywords stay apart from declarations that go on. -/
theorem due_lines (ls : List (List Char)) {s : State} {n : Nat} (h : s.ledger.Orderly)
    (htimely : s.diary.Timely n) (hnodup : s.diary.due.Nodup) :
    (s.lines n ls).diary.due.Nodup ∧
      ((s.lines n ls).diary.due.Pairwise (· < ·) ↔
        s.diary.due.Pairwise (· < ·) ∧ s.keywordsApart n ls = true) := by
  induction ls generalizing s n with
  | nil => exact ⟨hnodup, by simp [lines, keywordsApart]⟩
  | cons l ls ih =>
    have hstep := diary_line h n l
    obtain ⟨hrun, hiff⟩ :=
      ih (line_step h n l).orderly (hstep.timely htimely) (hstep.nodup htimely hnodup)
    refine ⟨hrun, hiff.trans ?_⟩
    have hunfinished : s.diary.unfinished.isSome = s.unfinished.isSome := by simp [diary]
    rw [hstep.pairwise_iff htimely, hunfinished, keywordsApart, Bool.and_eq_true, Bool.not_eq_true',
      and_assoc]

/-- The end of a source enters the declaration that still goes on. -/
theorem lines_finish (s : State) : s.finish.result.docs.map (·.declaration.line) = s.diary.due := by
  have htagged (s : State) : s.tagged.diary.entries = s.diary.entries := by
    unfold tagged
    split
    · simp [diary, Function.comp_def]
    · rfl
  have hreport : (if s.blocks.isEmpty then s else s.report (.unterminatedBlock s.file)).diary =
      s.diary := by
    split <;> rfl
  have hentries : s.finish.result.docs.map (·.declaration.line) = s.settled.diary.entries :=
    htagged s.settled
  rw [hentries, ← hreport]
  unfold settled
  generalize (if s.blocks.isEmpty then s else s.report (.unterminatedBlock s.file)) = s'
  dsimp only
  split
  · rename_i u hunfinished
    rw [diary_bind]
    simp [diary, Diary.due, hunfinished]
  · rename_i hunfinished
    simp [diary, Diary.due, hunfinished]

end State

/-! ## Scans -/

/-- No keyword of the source ends while a declaration goes on. -/
def keywordsApart (source : String) (file : Path) (options : Options) : Bool :=
  State.keywordsApart { file, options } 1 (Text.lines source.toList)

/-- **The order of entries.** No two entries have the same line, and they come in the order of their
lines exactly if no keyword ends while a declaration goes on. -/
theorem scan_inOrder_iff (source : String) (file : Path) (options : Options) :
    let lines := (scan source file options).analysis.docs.map (·.declaration.line)
    lines.Nodup ∧ (lines.Pairwise (· < ·) ↔ keywordsApart source file options = true) := by
  have hstart : (State.ledger { file, options }).Orderly := Ledger.orderly_code rfl rfl
  have htimely : (State.diary { file, options }).Timely 1 :=
    ⟨by simp [State.diary, Diary.due], by simp [State.diary]⟩
  obtain ⟨hnodup, hiff⟩ := State.due_lines (Text.lines source.toList) hstart htimely List.nodup_nil
  have hlines : (scan source file options).analysis.docs.map (·.declaration.line) =
      (lastState source file options).diary.due := State.lines_finish _
  have hempty : (State.diary { file, options }).due.Pairwise (· < ·) := List.Pairwise.nil
  simp only [hlines]
  exact ⟨hnodup, hiff.trans (and_iff_right hempty)⟩

/-- A keyword in the midst of a declaration is entered first, though the declaration starts above it. -/
theorem scan_keyword_within :
    let source := "Rem\nbbdoc: A\nEnd Rem\nFunction A( ..\nRem\nbbdoc: K\nkeyword: K\nEnd Rem\nb:Int )\n"
    let lines := (scan source ⟨"test.bmx"⟩ {}).analysis.docs.map (·.declaration.line)
    lines = [6, 4] ∧ ¬ lines.Pairwise (· < ·) := by
  decide +kernel

end BlitzDoc.Source
