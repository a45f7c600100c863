import BlitzDoc.Proofs.Source.Turn

/-!
# Comment blocks and what becomes of them

Where the comment blocks of a source start and end can be told from its lines alone: `Phase` reads
them one by one, and `closedDocs` counts the `bbdoc:` blocks that come to their end. The main
statement is `scan_accounts`: of each of these a scan made an entry, or reported that it was
discarded, or it still waits for a declaration. On the way at most one block is open, a documentation
text is being read exactly while that block is a `bbdoc:` one, and none waits while a block is open.

The proof keeps a `Ledger` of a scan, which leaves out the texts. Every part of the reader has one
equation that says what it does to the ledger, and `line_step` puts them together for one line.
-/

namespace BlitzDoc

/-- A documentation text was dropped because a comment followed it. -/
def Event.isDiscarded : Event → Bool
  | .entryDiscarded .. => true
  | _ => false

/-- A line of a documentation text was met where none is being read. -/
def Event.isOrphan : Event → Bool
  | .bodyWithoutEntry .. => true
  | _ => false

namespace Source

/-! ## Blocks by their lines -/

/-- What a line stands in. -/
inductive Phase where
  | code
  /-- A block that has had no text yet. -/
  | opened
  | comment
  | doc
deriving DecidableEq, Repr

namespace Phase

/-- What follows a line of a block that has had no text before. -/
def nextOpened (line : List Char) : Phase :=
  if Line.isEndRem line then .code
  else
    let text := Text.dropBlanksEnd (Text.dropBlanks line)
    if text.isEmpty then .opened else if Line.startsDoc text then .doc else .comment

/-- What follows a line. The rest of a line that starts a block is the first line of the block. -/
def next (p : Phase) (line : List Char) : Phase :=
  match p with
  | .code =>
    match Line.afterRem? line with
    | some rest => nextOpened (Text.dropBlanksEnd (Text.dropBlanks rest))
    | none => .code
  | .opened => nextOpened line
  | .comment => if Line.isEndRem line then .code else .comment
  | .doc => if Line.isEndRem line then .code else .doc

/-- The line ends a `bbdoc:` block. -/
def closesDoc (p : Phase) (line : List Char) : Bool :=
  p == .doc && Line.isEndRem line

/-- The line starts with `bbdoc:` too late, in a block that had another text before. -/
def isStray (p : Phase) (line : List Char) : Bool :=
  p == .comment && !Line.isEndRem line &&
    Line.startsDoc (Text.dropBlanksEnd (Text.dropBlanks line))

/-- The number of lines that a test accepts. -/
def count (test : Phase → List Char → Bool) : Phase → List (List Char) → Nat
  | _, [] => 0
  | p, l :: ls => (test p l).toNat + count test (p.next l) ls

end Phase

/-- The number of `bbdoc:` blocks that come to their end. -/
def closedDocs (ls : List (List Char)) : Nat :=
  Phase.count Phase.closesDoc .code ls

/-- The number of lines that start with `bbdoc:` too late. -/
def strayDocs (ls : List (List Char)) : Nat :=
  Phase.count Phase.isStray .code ls

/-! ## Ledgers -/

/-- What a scan has found and has still in hand, without the texts. -/
structure Ledger where
  blocks : List Block
  awaitingFirstLine : Bool
  /-- A documentation text is being read. -/
  reading : Bool
  /-- One waits for its declaration. -/
  pending : Bool
  /-- One has a declaration that goes on on the next line. -/
  unfinished : Bool
  entries : Nat
  discarded : Nat
  orphans : Nat

namespace Ledger

/-- What the next line stands in. -/
def phase (b : Ledger) : Phase :=
  match b.blocks with
  | [] => .code
  | .comment :: _ => if b.awaitingFirstLine then .opened else .comment
  | .doc :: _ => .doc

/-- The documentation texts that were read to their end. -/
def settled (b : Ledger) : Nat :=
  b.entries + b.discarded + b.pending.toNat + b.unfinished.toNat

/-- At most one block is open; it is a `bbdoc:` block exactly while a text is being read, and no text
waits beside it. -/
structure Orderly (b : Ledger) : Prop where
  single : b.blocks.length ≤ 1
  reading : b.blocks.head? = some .doc ↔ b.reading = true
  alone : b.blocks ≠ [] → b.pending = false

variable {b : Ledger}

theorem orderly_code (hblocks : b.blocks = []) (hreading : b.reading = false) : b.Orderly :=
  ⟨by simp [hblocks], by simp [hblocks, hreading], fun h => absurd hblocks h⟩

theorem orderly_comment (hblocks : b.blocks = [.comment]) (hreading : b.reading = false)
    (hpending : b.pending = false) : b.Orderly :=
  ⟨by simp [hblocks], by simp [hblocks, hreading], fun _ => hpending⟩

theorem orderly_doc (hblocks : b.blocks = [.doc]) (hreading : b.reading = true)
    (hpending : b.pending = false) : b.Orderly :=
  ⟨by simp [hblocks], by simp [hblocks, hreading], fun _ => hpending⟩

end Ledger

namespace State

/-- The ledger of a scan. -/
def ledger (s : State) : Ledger where
  blocks := s.blocks
  awaitingFirstLine := s.awaitingFirstLine
  reading := s.openDoc.isSome
  pending := s.pending.isSome
  unfinished := s.unfinished.isSome
  entries := s.result.docs.length
  discarded := s.log.countP Event.isDiscarded
  orphans := s.log.countP Event.isOrphan

theorem ledger_report (s : State) (e : Event) :
    (s.report e).ledger =
      { s.ledger with
        discarded := s.ledger.discarded + e.isDiscarded.toNat
        orphans := s.ledger.orphans + e.isOrphan.toNat } := by
  simp only [report, ledger, List.countP_append, List.countP_singleton]
  cases e.isDiscarded <;> cases e.isOrphan <;> rfl

/-! ### The parts of a line -/

theorem ledger_discardPending (s : State) (n : Nat) :
    (s.discardPending n).ledger =
      { s.ledger with
        pending := false, discarded := s.ledger.discarded + s.ledger.pending.toNat } := by
  unfold discardPending
  split
  · rename_i doc hpending
    rw [ledger_report]
    simp [ledger, hpending, Event.isDiscarded, Event.isOrphan]
  · rename_i hpending
    simp [ledger, hpending]

/-- A line of a text that is being read leaves the ledger alone. -/
theorem ledger_docLine {s : State} (h : s.ledger.reading = true) (n : Nat) (text : List Char) :
    (s.docLine n text).ledger = s.ledger := by
  rcases docLine_cases s n text with ⟨hnone, -⟩ | ⟨doc, hdoc, ⟨doc', hline, -⟩ | ⟨name, hline⟩⟩
  · simp [ledger, hnone] at h
  · rw [hline]
    simp [ledger, hdoc]
  · rw [hline]
    exact ledger_report s _

/-- The end of a `bbdoc:` block: the text becomes an entry at once, or waits. -/
theorem ledger_closeBlock_doc {s : State} {rest : List Block} (hblocks : s.blocks = .doc :: rest)
    (h : s.ledger.reading = true) (n : Nat) :
    (s.closeBlock n).ledger =
        { s.ledger with blocks := rest, reading := false, entries := s.ledger.entries + 1 } ∨
      (s.closeBlock n).ledger = { s.ledger with blocks := rest, reading := false, pending := true } := by
  obtain ⟨doc, hdoc⟩ := Option.isSome_iff_exists.1 h
  simp only [closeBlock, hblocks, List.head?_cons, if_true, hdoc]
  cases hkeyword : doc.keyword with
  | some keyword =>
    left
    simp [pushKeyword_eq, ledger]
  | none =>
    right
    simp [ledger]

theorem ledger_closeBlock_comment {s : State} {rest : List Block} (hblocks : s.blocks = .comment :: rest)
    (n : Nat) : (s.closeBlock n).ledger = { s.ledger with blocks := rest } := by
  simp [closeBlock, hblocks, ledger]

theorem ledger_structureLine (s : State) (n : Nat) (code : List Char) (entry : Option Nat) :
    (s.structureLine n code entry).ledger = s.ledger := by
  obtain ⟨aggregates, targets, result, events, hline, hdocs, hevents⟩ :=
    structureLine_frame s n code entry
  have hcount (test : Event → Bool) (htest : test (.endWithoutAggregate s.file n) = false) :
      events.countP test = 0 := by
    rw [List.countP_eq_zero]
    intro e he
    simp [hevents e he, htest]
  rw [hline]
  simp [ledger, hdocs, hcount Event.isDiscarded rfl, hcount Event.isOrphan rfl]

/-- A text that is bound becomes an entry. -/
theorem ledger_bind (s : State) (doc : OpenDoc) (n : Nat) (text : List Char) :
    (s.bind doc n text).ledger = { s.ledger with entries := s.ledger.entries + 1 } := by
  have hissues (file : Path) (raw : String) (issues : List Signature.Issue) (test : Event → Bool)
      (htest : ∀ issue, test (.malformedSignature file n raw issue) = false) :
      (issues.map (Event.malformedSignature file n raw)).countP test = 0 := by
    rw [List.countP_map, List.countP_eq_zero]
    intro issue _
    simp [htest]
  simp only [bind, pushEntry, ledger, List.length_append, List.length_singleton, List.countP_append]
  rw [hissues _ _ _ Event.isDiscarded fun _ => rfl, hissues _ _ _ Event.isOrphan fun _ => rfl]
  rfl

/-- A text that meets its declaration becomes an entry, at once or when the declaration ends. -/
theorem settled_declarationLine {s : State} (h : s.ledger.unfinished = false) (doc : OpenDoc) (n : Nat)
    (text : List Char) :
    ∃ unfinished entries, (s.declarationLine doc n text).ledger = { s.ledger with unfinished, entries } ∧
      entries + unfinished.toNat = s.ledger.entries + 1 := by
  unfold declarationLine
  split
  · exact ⟨true, s.ledger.entries, rfl, rfl⟩
  · exact ⟨false, s.ledger.entries + 1, by rw [ledger_structureLine, ledger_bind, ← h], rfl⟩

/-- A line of code moves texts on and loses none. -/
theorem settled_codeLine (s : State) (n : Nat) (code : List Char) :
    ∃ pending unfinished entries,
      (s.codeLine n code).ledger = { s.ledger with pending, unfinished, entries } ∧
      (s.codeLine n code).ledger.settled = s.ledger.settled := by
  unfold codeLine
  split
  · rename_i u hunfinished
    obtain ⟨unfinished, entries, hledger, hsum⟩ :=
      settled_declarationLine (s := { s with unfinished := none }) rfl u.doc u.line (u.text ++ ' ' :: code)
    refine ⟨s.ledger.pending, unfinished, entries, hledger, ?_⟩
    rw [hledger]
    simp only [Ledger.settled, ledger, hunfinished, Option.isSome_some, Bool.toNat_true] at hsum ⊢
    omega
  · rename_i hunfinished
    split
    · rename_i doc hpending
      have hnone : ({ s with pending := none } : State).ledger.unfinished = false := by
        simp [ledger, hunfinished]
      obtain ⟨unfinished, entries, hledger, hsum⟩ := settled_declarationLine hnone doc n code
      refine ⟨false, unfinished, entries, hledger, ?_⟩
      rw [hledger]
      simp only [Ledger.settled, ledger, hunfinished, hpending, Option.isSome_some, Option.isSome_none,
        Bool.toNat_true, Bool.toNat_false] at hsum ⊢
      omega
    · rw [ledger_structureLine]
      exact ⟨_, _, _, rfl, rfl⟩

/-! ### One line -/

/-- The line was taken as its phase tells, and the ledger is in order behind it. -/
structure Step (b b' : Ledger) (p : Phase) (l : List Char) : Prop where
  orderly : b'.Orderly
  phase : b'.phase = p.next l
  settled : b'.settled = b.settled + (p.closesDoc l).toNat
  orphans : b'.orphans = b.orphans + (p.isStray l).toNat

/-- A line of a plain comment block. -/
theorem blockLine_comment {s : State} (hblocks : s.blocks = [.comment]) (h : s.ledger.Orderly) (n : Nat)
    (l : List Char) : Step s.ledger (s.blockLine .comment n l).ledger s.ledger.phase l := by
  have hreading : s.ledger.reading = false := by
    have hiff := h.reading
    simpa [ledger, hblocks] using hiff
  have hpending : s.ledger.pending = false := h.alone (by simp [ledger, hblocks])
  have hphase : s.ledger.phase = if s.awaitingFirstLine then .opened else .comment := by
    simp [Ledger.phase, ledger, hblocks]
  unfold blockLine
  split
  · rename_i hend
    rw [ledger_closeBlock_comment hblocks, hphase]
    refine ⟨Ledger.orderly_code rfl hreading, ?_, ?_, ?_⟩ <;>
      cases s.awaitingFirstLine <;>
      simp [Phase.next, Phase.nextOpened, Phase.closesDoc, Phase.isStray, Ledger.settled, Ledger.phase,
        hend]
  · rename_i hend
    have hend : Line.isEndRem l = false := by simpa using hend
    generalize htext : Text.dropBlanksEnd (Text.dropBlanks l) = text
    dsimp only
    split
    · rename_i hempty
      have hplain : Line.startsDoc text = false := by
        rw [List.isEmpty_iff.1 hempty]
        rfl
      refine ⟨h, ?_, ?_, ?_⟩ <;> rw [hphase] <;> cases s.awaitingFirstLine <;>
        simp [Phase.next, Phase.nextOpened, Phase.closesDoc, Phase.isStray, hend, htext, hempty, hplain]
    · rename_i hempty
      have hempty : text.isEmpty = false := by simpa using hempty
      -- from here on the block has had its first line with a text
      have hread : ({ s with awaitingFirstLine := false } : State).ledger.Orderly :=
        Ledger.orderly_comment hblocks hreading hpending
      split
      · rename_i hplain
        have hplain : Line.startsDoc text = false := by simpa using hplain
        refine ⟨hread, ?_, ?_, ?_⟩ <;> rw [hphase] <;> cases s.awaitingFirstLine <;>
          simp [Phase.next, Phase.nextOpened, Phase.closesDoc, Phase.isStray, Ledger.phase,
            Ledger.settled, ledger, hblocks, hend, htext, hempty, hplain]
      · rename_i hdoc
        have hdoc : Line.startsDoc text = true := by simpa using hdoc
        cases hfirst : s.awaitingFirstLine with
        | false =>
          simp only [Bool.not_false, if_true]
          rw [ledger_report, hphase, hfirst]
          refine ⟨Ledger.orderly_comment hblocks hreading hpending, ?_, ?_, ?_⟩ <;>
            simp [Phase.next, Phase.closesDoc, Phase.isStray, Ledger.phase, Ledger.settled, ledger,
              Event.isDiscarded, Event.isOrphan, hblocks, hend, htext, hdoc]
        | true =>
          simp only [Bool.not_true, Bool.false_eq_true, if_false]
          rw [ledger_docLine rfl, hphase, hfirst]
          refine ⟨Ledger.orderly_doc (by simp [ledger, hblocks]) rfl hpending, ?_, ?_, ?_⟩ <;>
            simp [Phase.next, Phase.nextOpened, Phase.closesDoc, Phase.isStray, Ledger.phase,
              Ledger.settled, ledger, hend, htext, hempty, hdoc]

/-- A line of a `bbdoc:` block. -/
theorem blockLine_doc {s : State} (hblocks : s.blocks = [.doc]) (h : s.ledger.Orderly) (n : Nat)
    (l : List Char) : Step s.ledger (s.blockLine .doc n l).ledger .doc l := by
  have hreading : s.ledger.reading = true := h.reading.1 (by simp [ledger, hblocks])
  have hpending : s.ledger.pending = false := h.alone (by simp [ledger, hblocks])
  unfold blockLine
  split
  · rename_i hend
    rcases ledger_closeBlock_doc hblocks hreading n with hledger | hledger <;> rw [hledger]
    · refine ⟨Ledger.orderly_code rfl rfl, ?_, ?_, ?_⟩ <;>
        simp [Phase.next, Phase.closesDoc, Phase.isStray, Ledger.phase, Ledger.settled, hend]
      omega
    · refine ⟨Ledger.orderly_code rfl rfl, ?_, ?_, ?_⟩ <;>
        simp [Phase.next, Phase.closesDoc, Phase.isStray, Ledger.phase, Ledger.settled, hend, hpending]
      omega
  · rename_i hend
    have hend : Line.isEndRem l = false := by simpa using hend
    rw [ledger_docLine hreading]
    refine ⟨h, ?_, ?_, ?_⟩ <;>
      simp [Phase.next, Phase.closesDoc, Phase.isStray, Ledger.phase, ledger, hblocks, hend]

/-- A line outside of blocks that starts none. -/
theorem step_code {b b' : Ledger} {l : List Char} (hrem : Line.afterRem? l = none)
    (hblocks : b'.blocks = []) (hreading : b'.reading = false) (hsettled : b'.settled = b.settled)
    (horphans : b'.orphans = b.orphans) : Step b b' .code l where
  orderly := Ledger.orderly_code hblocks hreading
  phase := by simp [Ledger.phase, hblocks, Phase.next, hrem]
  settled := by simp [hsettled, Phase.closesDoc]
  orphans := by simp [horphans, Phase.isStray]

/-- A text that is discarded counts as settled before and after. -/
theorem settled_discardPending (s : State) (n : Nat) :
    (s.discardPending n).ledger.settled = s.ledger.settled := by
  rw [ledger_discardPending]
  simp only [Ledger.settled, Bool.toNat_false]
  omega

/-- A line outside of blocks that starts one: what stands behind `Rem` is the first line of the new
block. -/
theorem line_of_rem {s : State} (hblocks : s.blocks = []) (hreading : s.ledger.reading = false) (n : Nat)
    {l rest : List Char} (hrem : Line.afterRem? l = some rest) :
    Step s.ledger (s.line n l).ledger .code l := by
  have hnext : Phase.code.next l = .nextOpened (Text.dropBlanksEnd (Text.dropBlanks rest)) := by
    simp [Phase.next, hrem]
  simp only [line, hblocks, hrem]
  generalize Text.dropBlanksEnd (Text.dropBlanks rest) = first at hnext
  have hopened : ({ s.discardPending n with blocks := [.comment], awaitingFirstLine := true } :
      State).ledger =
        { (s.discardPending n).ledger with blocks := [.comment], awaitingFirstLine := true } := rfl
  have horderly : ({ s.discardPending n with blocks := [.comment], awaitingFirstLine := true } :
      State).ledger.Orderly := by
    rw [hopened, ledger_discardPending]
    exact Ledger.orderly_comment rfl hreading rfl
  have hsettled := settled_discardPending s n
  have horphans : (s.discardPending n).ledger.orphans = s.ledger.orphans := by
    rw [ledger_discardPending]
  split
  · rename_i hempty
    refine ⟨horderly, ?_, hsettled, horphans⟩
    rw [hnext, List.isEmpty_iff.1 hempty]
    rfl
  · have hstep := blockLine_comment rfl horderly n first
    refine ⟨hstep.orderly, hstep.phase.trans hnext.symm, ?_, ?_⟩
    · rw [hstep.settled, hopened]
      exact hsettled
    · rw [hstep.orphans, hopened]
      exact horphans

/-- A line of code, a line comment or a blank line. -/
theorem line_of_code {s : State} (hblocks : s.blocks = []) (hreading : s.ledger.reading = false) (n : Nat)
    {l : List Char} (hrem : Line.afterRem? l = none) : Step s.ledger (s.line n l).ledger .code l := by
  simp only [line, hblocks, hrem]
  split
  · exact step_code hrem hblocks hreading rfl rfl
  · split
    · refine step_code hrem ?_ ?_ (settled_discardPending s n) ?_ <;> rw [ledger_discardPending]
      · exact hblocks
      · exact hreading
    · obtain ⟨pending, unfinished, entries, hledger, hsettled⟩ := settled_codeLine s n
        (Line.stripComment (Text.dropBlanksEnd (Text.dropBlanks l)))
      refine step_code hrem ?_ ?_ hsettled ?_ <;> rw [hledger]
      · exact hblocks
      · exact hreading

/-- **One line** does to the ledger what can be told from the line. -/
theorem line_step {s : State} (h : s.ledger.Orderly) (n : Nat) (l : List Char) :
    Step s.ledger (s.line n l).ledger s.ledger.phase l := by
  cases hblocks : s.blocks with
  | cons block rest =>
    obtain rfl : rest = [] := by
      have hsingle := h.single
      simpa [ledger, hblocks] using hsingle
    have hline : s.line n l = s.blockLine block n l := by simp only [line, hblocks]
    rw [hline]
    cases block with
    | comment => exact blockLine_comment hblocks h n l
    | doc =>
      have hphase : s.ledger.phase = .doc := by simp [Ledger.phase, ledger, hblocks]
      rw [hphase]
      exact blockLine_doc hblocks h n l
  | nil =>
    have hreading : s.ledger.reading = false := by
      have hiff := h.reading
      simpa [ledger, hblocks] using hiff
    have hphase : s.ledger.phase = .code := by simp [Ledger.phase, ledger, hblocks]
    rw [hphase]
    cases hrem : Line.afterRem? l with
    | some rest => exact line_of_rem hblocks hreading n hrem
    | none => exact line_of_code hblocks hreading n hrem

/-- **Lines** do to the ledger what can be told from them. -/
theorem lines_step {s : State} (h : s.ledger.Orderly) (n : Nat) (ls : List (List Char)) :
    (s.lines n ls).ledger.Orderly ∧
      (s.lines n ls).ledger.settled = s.ledger.settled + Phase.count Phase.closesDoc s.ledger.phase ls ∧
      (s.lines n ls).ledger.orphans = s.ledger.orphans + Phase.count Phase.isStray s.ledger.phase ls := by
  induction ls generalizing s n with
  | nil => exact ⟨h, rfl, rfl⟩
  | cons l ls ih =>
    have hstep := line_step h n l
    obtain ⟨horderly, hsettled, horphans⟩ := ih hstep.orderly (n + 1)
    rw [hstep.phase, hstep.settled] at hsettled
    rw [hstep.phase, hstep.orphans] at horphans
    refine ⟨horderly, ?_, ?_⟩
    · rw [lines, hsettled, Phase.count]
      omega
    · rw [lines, horphans, Phase.count]
      omega

/-! ### The end of the source -/

/-- The end of a source makes an entry of a declaration that still goes on. -/
theorem ledger_finish (s : State) :
    s.finish.ledger =
      { s.ledger with
        unfinished := false, entries := s.ledger.entries + s.ledger.unfinished.toNat } := by
  have htagged (s : State) : s.tagged.ledger = s.ledger := by
    unfold tagged
    split
    · simp [ledger]
    · rfl
  have hreport : (if s.blocks.isEmpty then s else s.report (.unterminatedBlock s.file)).ledger =
      s.ledger := by
    split
    · rfl
    · exact ledger_report s _
  rw [finish_eq, htagged, ← hreport]
  unfold settled
  generalize (if s.blocks.isEmpty then s else s.report (.unterminatedBlock s.file)) = s'
  dsimp only
  split
  · rename_i u hunfinished
    rw [ledger_bind]
    simp [ledger, hunfinished]
  · rename_i hunfinished
    simp [ledger, hunfinished]

end State

/-! ## Scans -/

/-- **No documentation text is lost without a trace.** After any number of lines at most one block is
open, a `bbdoc:` block exactly while a text is being read, and no text waits beside an open block; the
`bbdoc:` blocks that have ended are the entries, those that were reported as discarded, one that waits
for its declaration and one whose declaration goes on on the next line. A text without an entry is
reported only where `bbdoc:` comes too late in a block. At the end of the source no declaration goes
on any more. -/
theorem scan_accounts (source : String) (file : Path) (options : Options) :
    (∀ k, let ls := (Text.lines source.toList).take k
      let s := State.lines { file, options } 1 ls
      s.blocks.length ≤ 1 ∧ (s.blocks.head? = some .doc ↔ s.openDoc.isSome = true) ∧
        (s.blocks ≠ [] → s.pending = none) ∧ s.log.countP Event.isOrphan = strayDocs ls ∧
        closedDocs ls = s.result.docs.length + s.log.countP Event.isDiscarded +
          s.pending.isSome.toNat + s.unfinished.isSome.toNat) ∧
      (scan source file options).log.countP Event.isOrphan = strayDocs (Text.lines source.toList) ∧
      closedDocs (Text.lines source.toList) = (scan source file options).analysis.docs.length +
        (scan source file options).log.countP Event.isDiscarded +
        (lastState source file options).pending.isSome.toNat := by
  have hstart : (State.ledger { file, options }).Orderly := Ledger.orderly_code rfl rfl
  have hlines := State.lines_step hstart 1
  constructor
  · intro k
    obtain ⟨horderly, hsettled, horphans⟩ := hlines ((Text.lines source.toList).take k)
    refine ⟨horderly.single, horderly.reading, fun hopen => ?_, ?_, ?_⟩
    · simpa [State.ledger] using horderly.alone hopen
    · exact horphans.trans (Nat.zero_add _)
    · exact (hsettled.trans (Nat.zero_add _)).symm
  · obtain ⟨-, hsettled, horphans⟩ := hlines (Text.lines source.toList)
    have hfinish := State.ledger_finish (lastState source file options)
    have hentries := congrArg Ledger.entries hfinish
    have hdiscarded := congrArg Ledger.discarded hfinish
    constructor
    · exact (congrArg Ledger.orphans hfinish).trans (horphans.trans (Nat.zero_add _))
    · have hclosed : closedDocs (Text.lines source.toList) =
          (lastState source file options).ledger.settled := (hsettled.trans (Nat.zero_add _)).symm
      simp only [Ledger.settled, State.ledger] at hclosed hentries hdiscarded
      rw [scan_eq]
      simp only
      omega

/-- A text that is bound over two lines, one that a comment follows, and one that waits. -/
example :
    let source := "Rem\nbbdoc: A\nEnd Rem\nFunction F( ..\nRem bbdoc: B\nEnd Rem\na )\n'c\n"
      ++ "Rem\nnot first\nbbdoc: C\nEnd Rem\nRem\n\nbbdoc: D\nEnd Rem\n"
    closedDocs (Text.lines source.toList) = 3 ∧ strayDocs (Text.lines source.toList) = 1 ∧
      (scan source ⟨"f.bmx"⟩ {}).analysis.docs.map (·.info) = ["A"] ∧
      (lastState source ⟨"f.bmx"⟩ {}).pending.map (·.info) = some ["D"] := by
  decide +kernel

end Source

end BlitzDoc
