import BlitzDoc.Source.Scan

/-!
# What one line can do

A line either leaves the findings of a scan alone, or adds the entry of a keyword, or binds a
declaration and takes its structure, or takes the structure of a line of code (`line_turn`). Every
invariant of a scan is proved over these four turns; nothing else needs to open the reader of
lines. `settled_cases` says the same of the end of the source.
-/

namespace BlitzDoc.Source.State

/-- Both states have found the same. They may differ in what is being read: the blocks, the texts
that wait, and the events. -/
structure SameFindings (s s' : State) : Prop where
  file : s'.file = s.file
  options : s'.options = s.options
  aggregates : s'.aggregates = s.aggregates
  targets : s'.targets = s.targets
  result : s'.result = s.result

namespace SameFindings

theorem refl (s : State) : SameFindings s s := ⟨rfl, rfl, rfl, rfl, rfl⟩

theorem trans {s s' s'' : State} (h : SameFindings s s') (h' : SameFindings s' s'') :
    SameFindings s s'' :=
  ⟨h'.file.trans h.file, h'.options.trans h.options, h'.aggregates.trans h.aggregates,
    h'.targets.trans h.targets, h'.result.trans h.result⟩

end SameFindings

/-- One line, as far as findings go. -/
inductive Turn (s : State) : State → Prop
  | quiet {s' : State} (h : SameFindings s s') : Turn s s'
  | keyword {s' : State} (h : SameFindings s s') (doc : OpenDoc) (keyword : String) :
      Turn s (s'.pushKeyword doc keyword)
  | declaration {s' : State} (h : SameFindings s s') (doc : OpenDoc) (n : Nat) (text : List Char) :
      Turn s ((s'.bind doc n text).structureLine n text (some s'.result.docs.length))
  | code {s' : State} (h : SameFindings s s') (n : Nat) (code : List Char) :
      Turn s (s'.structureLine n code none)

/-- What happened to the findings before a turn does not matter to it. -/
theorem Turn.after {s s' s'' : State} (h : SameFindings s s') (h' : Turn s' s'') : Turn s s'' := by
  cases h' with
  | quiet h₁ => exact .quiet (h.trans h₁)
  | keyword h₁ doc k => exact .keyword (h.trans h₁) doc k
  | declaration h₁ doc n text => exact .declaration (h.trans h₁) doc n text
  | code h₁ n code => exact .code (h.trans h₁) n code

/-! ## The parts of a line -/

theorem discardPending_same (s : State) (n : Nat) : SameFindings s (s.discardPending n) := by
  unfold discardPending
  split
  · exact ⟨rfl, rfl, rfl, rfl, rfl⟩
  · exact .refl s

theorem push_line (doc : OpenDoc) (text : List Char) : (doc.push text).line = doc.line := by
  unfold OpenDoc.push
  dsimp only
  split <;> rfl

/-- A line of a documentation text closes the block if no text is being read, adds to the text that
is being read, or is reported for its tag. -/
theorem docLine_cases (s : State) (n : Nat) (text : List Char) :
    (s.openDoc = none ∧
      s.docLine n text = { s with blocks := s.blocks.tail }.report (.bodyWithoutEntry s.file n)) ∨
    ∃ doc, s.openDoc = some doc ∧
      ((∃ doc', s.docLine n text = { s with openDoc := some doc' } ∧ doc'.line = doc.line) ∨
        ∃ name, s.docLine n text = s.report (.unknownTag s.file n name)) := by
  unfold docLine
  split
  · rename_i hdoc
    exact .inl ⟨hdoc, rfl⟩
  · rename_i doc hdoc
    refine .inr ⟨doc, hdoc, ?_⟩
    split
    · dsimp only
      split
      · exact .inl ⟨_, rfl, rfl⟩
      · exact .inl ⟨_, rfl, push_line _ _⟩
      · split
        · exact .inl ⟨_, rfl, push_line _ _⟩
        · exact .inr ⟨_, rfl⟩
    · exact .inl ⟨_, rfl, push_line _ _⟩

theorem docLine_same (s : State) (n : Nat) (text : List Char) :
    SameFindings s (s.docLine n text) := by
  rcases docLine_cases s n text with ⟨-, h⟩ | ⟨_, -, ⟨_, h, -⟩ | ⟨_, h⟩⟩ <;> rw [h] <;>
    exact ⟨rfl, rfl, rfl, rfl, rfl⟩

theorem closeBlock_turn (s : State) (n : Nat) : Turn s (s.closeBlock n) := by
  unfold closeBlock
  dsimp only
  split
  · split
    · split
      · refine .keyword ?_ _ _
        exact ⟨rfl, rfl, rfl, rfl, rfl⟩
      · exact .quiet ⟨rfl, rfl, rfl, rfl, rfl⟩
    · exact .quiet ⟨rfl, rfl, rfl, rfl, rfl⟩
  · exact .quiet ⟨rfl, rfl, rfl, rfl, rfl⟩

theorem blockLine_turn (s : State) (block : Block) (n : Nat) (l : List Char) :
    Turn s (s.blockLine block n l) := by
  unfold blockLine
  split
  · exact closeBlock_turn s n
  · dsimp only
    split
    · exact .quiet (docLine_same s n _)
    · split
      · exact .quiet (.refl s)
      · split
        · exact .quiet ⟨rfl, rfl, rfl, rfl, rfl⟩
        · split
          · exact .quiet ⟨rfl, rfl, rfl, rfl, rfl⟩
          · have hopen : SameFindings s { s with
                awaitingFirstLine := false, blocks := .doc :: s.blocks.tail,
                openDoc := some { line := n } } := ⟨rfl, rfl, rfl, rfl, rfl⟩
            exact .quiet (hopen.trans (docLine_same _ n _))

theorem declarationLine_turn (s : State) (doc : OpenDoc) (n : Nat) (text : List Char) :
    Turn s (s.declarationLine doc n text) := by
  unfold declarationLine
  split
  · exact .quiet ⟨rfl, rfl, rfl, rfl, rfl⟩
  · exact .declaration (.refl s) doc n text

section
variable {s : State} (n : Nat) (code : List Char)

/-- A declaration that goes on takes the line. -/
theorem codeLine_of_unfinished {u : Unfinished} (h : s.unfinished = some u) :
    s.codeLine n code =
      { s with unfinished := none }.declarationLine u.doc u.line (u.text ++ ' ' :: code) := by
  simp only [codeLine, h]

/-- A text that waits takes the line for its declaration. -/
theorem codeLine_of_pending {doc : OpenDoc} (h : s.unfinished = none) (hpending : s.pending = some doc) :
    s.codeLine n code = { s with pending := none }.declarationLine doc n code := by
  simp only [codeLine, h, hpending]

theorem codeLine_of_none (h : s.unfinished = none) (hpending : s.pending = none) :
    s.codeLine n code = s.structureLine n code none := by
  simp only [codeLine, h, hpending]

end

theorem codeLine_turn (s : State) (n : Nat) (code : List Char) : Turn s (s.codeLine n code) := by
  unfold codeLine
  split
  · refine Turn.after ?_ (declarationLine_turn _ _ _ _)
    exact ⟨rfl, rfl, rfl, rfl, rfl⟩
  · split
    · refine Turn.after ?_ (declarationLine_turn _ _ _ _)
      exact ⟨rfl, rfl, rfl, rfl, rfl⟩
    · exact .code (.refl s) n code

/-- **A line takes one of the four turns.** -/
theorem line_turn (s : State) (n : Nat) (l : List Char) : Turn s (s.line n l) := by
  unfold line
  split
  · exact blockLine_turn s _ n l
  · split
    · have hrem : SameFindings s
          { s.discardPending n with blocks := [.comment], awaitingFirstLine := true } :=
        (discardPending_same s n).trans ⟨rfl, rfl, rfl, rfl, rfl⟩
      dsimp only
      split
      · exact .quiet hrem
      · exact Turn.after hrem (blockLine_turn _ _ n _)
    · dsimp only
      split
      · exact .quiet (.refl s)
      · split
        · exact .quiet (discardPending_same s n)
        · exact codeLine_turn s n _

theorem lines_append (s : State) (n : Nat) (xs ys : List (List Char)) :
    s.lines n (xs ++ ys) = (s.lines n xs).lines (n + xs.length) ys := by
  induction xs generalizing s n with
  | nil => rfl
  | cons x xs ih =>
    rw [List.cons_append, lines, ih, lines, List.length_cons, Nat.add_right_comm, Nat.add_assoc]

/-- **Runs of lines.** What holds at the start and survives a turn holds after any lines. -/
theorem lines_induction {P : State → Prop} (hturn : ∀ s s', P s → Turn s s' → P s')
    (ls : List (List Char)) (s : State) (n : Nat) (h : P s) : P (s.lines n ls) := by
  induction ls generalizing s n with
  | nil => exact h
  | cons l ls ih => exact ih (s.line n l) (n + 1) (hturn s _ h (line_turn s n l))

/-! ## The parts of a turn -/

/-- What the structure of a line of code leaves alone, and what it does to the open aggregates. -/
structure Structured (s : State) (code : List Char) (entry : Option Nat) (s' : State) : Prop where
  file : s'.file = s.file
  options : s'.options = s.options
  docs : s'.result.docs = s.result.docs
  aggregates : s'.aggregates =
    if Line.opensAggregate code then entry :: s.aggregates
    else if Line.closesAggregate code then s.aggregates.tail else s.aggregates
  moduleName : s.options.isModuleEntry = false → s'.result.moduleName = s.result.moduleName

theorem importLine_structured (s : State) (value : List Char) :
    (s.importLine value).file = s.file ∧ (s.importLine value).options = s.options ∧
      (s.importLine value).result.docs = s.result.docs ∧
      (s.importLine value).aggregates = s.aggregates ∧
      (s.importLine value).result.moduleName = s.result.moduleName := by
  unfold importLine
  split <;> exact ⟨rfl, rfl, rfl, rfl, rfl⟩

/-- The structure of a line of code changes the open aggregates and what the source names, but no
entries; an end without an aggregate is all that it reports. -/
theorem structureLine_frame (s : State) (n : Nat) (code : List Char) (entry : Option Nat) :
    ∃ aggregates targets result events,
      s.structureLine n code entry =
        { s with aggregates, targets, result, log := s.log ++ events } ∧
      result.docs = s.result.docs ∧ ∀ e ∈ events, e = .endWithoutAggregate s.file n := by
  have hquiet (aggregates : List (Option Nat)) (targets : List Path) (result : Analysis)
      (hdocs : result.docs = s.result.docs) : ∃ aggregates' targets' result' events,
        ({ s with aggregates, targets, result } : State) =
          { s with
            aggregates := aggregates', targets := targets', result := result'
            log := s.log ++ events } ∧
        result'.docs = s.result.docs ∧ ∀ e ∈ events, e = .endWithoutAggregate s.file n :=
    ⟨aggregates, targets, result, [], by rw [List.append_nil], hdocs, by simp⟩
  unfold structureLine importLine
  split
  · exact hquiet _ _ _ rfl
  · split
    · split
      · exact hquiet _ _ _ rfl
      · exact ⟨_, _, _, [.endWithoutAggregate s.file n], rfl, rfl, by simp⟩
    · split
      · split <;> exact hquiet _ _ _ rfl
      · split
        · split
          · split <;> exact hquiet _ _ _ rfl
          · exact hquiet _ _ _ rfl
        · split
          · split <;> exact hquiet _ _ _ rfl
          · exact hquiet _ _ _ rfl

theorem structureLine_structured (s : State) (n : Nat) (code : List Char) (entry : Option Nat) :
    Structured s code entry (s.structureLine n code entry) := by
  unfold structureLine
  split
  · rename_i hopen
    exact ⟨rfl, rfl, rfl, by simp [hopen], fun _ => rfl⟩
  · rename_i hopen
    split
    · rename_i hclose
      split
      · rename_i hs
        exact ⟨rfl, rfl, rfl, by simp [hopen, hclose, hs], fun _ => rfl⟩
      · rename_i hs
        exact ⟨rfl, rfl, rfl, by simp [hopen, hclose, hs, report], fun _ => rfl⟩
    · rename_i hclose
      have hplain : ∀ {s' : State}, s'.aggregates = s.aggregates → s'.aggregates =
          if Line.opensAggregate code then entry :: s.aggregates
          else if Line.closesAggregate code then s.aggregates.tail else s.aggregates := by
        intro s' h; simpa [hopen, hclose] using h
      split
      · split
        · rename_i hentry
          exact ⟨rfl, rfl, rfl, hplain rfl, fun h => by simp [h] at hentry⟩
        · exact ⟨rfl, rfl, rfl, hplain rfl, fun _ => rfl⟩
      · split
        · split
          · obtain ⟨h1, h2, h3, h4, h5⟩ := importLine_structured s ‹List Char›
            exact ⟨h1, h2, h3, hplain h4, fun _ => h5⟩
          · exact ⟨rfl, rfl, rfl, hplain rfl, fun _ => rfl⟩
        · split
          · split <;> exact ⟨rfl, rfl, rfl, hplain rfl, fun _ => rfl⟩
          · exact ⟨rfl, rfl, rfl, hplain rfl, fun _ => rfl⟩

/-- The declaration that `bind` adds an entry for. -/
def declared (s : State) (n : Nat) (text : List Char) : Declaration :=
  { (Signature.read (String.ofList text) s.file n).1 with parent := s.aggregates.head?.join }

theorem bind_result (s : State) (doc : OpenDoc) (n : Nat) (text : List Char) :
    (s.bind doc n text).result =
      { s.result with docs := s.result.docs ++ [entryOf doc (s.declared n text)] } := rfl

theorem bind_fields (s : State) (doc : OpenDoc) (n : Nat) (text : List Char) :
    (s.bind doc n text).file = s.file ∧ (s.bind doc n text).options = s.options ∧
      (s.bind doc n text).aggregates = s.aggregates := ⟨rfl, rfl, rfl⟩

/-- The declaration of a keyword. -/
def keywordDeclaration (s : State) (doc : OpenDoc) (keyword : String) : Declaration :=
  let d : Declaration :=
    { raw := keyword, file := s.file, line := doc.line, kind := .keyword, name := keyword }
  { d with pretty := d.layout }

theorem pushKeyword_eq (s : State) (doc : OpenDoc) (keyword : String) :
    s.pushKeyword doc keyword =
      { s with result := { s.result with
          docs := s.result.docs ++ [entryOf doc (s.keywordDeclaration doc keyword)] } } := rfl

/-! ## The end of a source -/

/-- The state with its entries tagged by the module, if one was declared. -/
def tagged (s : State) : State :=
  match s.result.moduleName with
  | some name =>
    { s with result :=
      { s.result with docs := s.result.docs.map fun e => { e with module := some name } } }
  | none => s

theorem tagged_moduleName (s : State) : s.tagged.result.moduleName = s.result.moduleName := by
  unfold tagged
  split <;> rfl

/-- The state once the declaration that was still going on, if any, has been bound. -/
def settled (s : State) : State :=
  let s := if s.blocks.isEmpty then s else s.report (.unterminatedBlock s.file)
  match s.unfinished with
  | some u => { s with unfinished := none }.bind u.doc u.line u.text
  | none => s

theorem finish_eq (s : State) : s.finish = s.settled.tagged := rfl

/-- The end of a source binds at most one declaration. -/
theorem settled_cases (s : State) : ∃ s', SameFindings s s' ∧
    (s.settled = s' ∨ ∃ doc n text, s.settled = s'.bind doc n text) := by
  have hreport : SameFindings s
      (if s.blocks.isEmpty then s else s.report (.unterminatedBlock s.file)) := by
    split <;> exact ⟨rfl, rfl, rfl, rfl, rfl⟩
  unfold settled
  dsimp only
  split
  · rename_i u _
    refine ⟨_, hreport.trans ?_, Or.inr ⟨u.doc, u.line, u.text, rfl⟩⟩
    exact ⟨rfl, rfl, rfl, rfl, rfl⟩
  · exact ⟨_, hreport, Or.inl rfl⟩

/-! ## What no line changes -/

theorem turn_file {s s' : State} (h : Turn s s') : s'.file = s.file := by
  cases h with
  | quiet h => exact h.file
  | keyword h doc k => exact h.file
  | declaration h doc n text => exact (structureLine_structured _ _ _ _).file.trans h.file
  | code h n code => exact (structureLine_structured _ _ _ _).file.trans h.file

theorem lines_file (s : State) (n : Nat) (ls : List (List Char)) : (s.lines n ls).file = s.file :=
  lines_induction (P := fun s' => s'.file = s.file) (fun _ _ h ht => (turn_file ht).trans h) ls s n rfl

theorem turn_options {s s' : State} (h : Turn s s') : s'.options = s.options := by
  cases h with
  | quiet h => exact h.options
  | keyword h doc k => exact h.options
  | declaration h doc n text => exact (structureLine_structured _ _ _ _).options.trans h.options
  | code h n code => exact (structureLine_structured _ _ _ _).options.trans h.options

/-- Only the source of a module entry sets the name of a module. -/
theorem turn_moduleName {s s' : State} (h : Turn s s') (ho : s.options.isModuleEntry = false) :
    s'.result.moduleName = s.result.moduleName := by
  cases h with
  | quiet h => rw [h.result]
  | keyword h doc k => rw [pushKeyword_eq, h.result]
  | declaration h doc n text =>
    rename_i s₁
    have ho₁ : (s₁.bind doc n text).options.isModuleEntry = false := by
      rw [(bind_fields s₁ doc n text).2.1, h.options, ho]
    rw [(structureLine_structured _ _ _ _).moduleName ho₁, bind_result, h.result]
  | code h n code =>
    rw [(structureLine_structured _ _ _ _).moduleName (by rw [h.options, ho]), h.result]

end State

/-! ## Scans -/

/-- The state after the last line of a source. -/
def lastState (source : String) (file : Path) (options : Options) : State :=
  State.lines { file, options } 1 (Text.lines source.toList)

theorem scan_eq (source : String) (file : Path) (options : Options) :
    scan source file options =
      { analysis := (lastState source file options).finish.result
        targets := (lastState source file options).finish.targets
        log := (lastState source file options).finish.log } := rfl

/-- A source that is no module entry names no module. -/
theorem scan_moduleName (source : String) (file : Path) (options : Options)
    (ho : options.isModuleEntry = false) : (scan source file options).analysis.moduleName = none := by
  have hlines := State.lines_induction
    (P := fun s => s.options.isModuleEntry = false ∧ s.result.moduleName = none)
    (fun s s' h ht => ⟨(State.turn_options ht).symm ▸ h.1, (State.turn_moduleName ht h.1).trans h.2⟩)
    (Text.lines source.toList) { file, options } 1 ⟨ho, rfl⟩
  obtain ⟨s', hsame, hs | ⟨doc, n, text, hs⟩⟩ := State.settled_cases (lastState source file options)
  · rw [scan_eq, State.finish_eq, State.tagged_moduleName, hs, hsame.result]
    exact hlines.2
  · rw [scan_eq, State.finish_eq, State.tagged_moduleName, hs, State.bind_result, hsame.result]
    exact hlines.2

end BlitzDoc.Source
