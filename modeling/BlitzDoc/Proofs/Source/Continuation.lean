import BlitzDoc.Proofs.Source.Blanks
import BlitzDoc.Proofs.Source.Blocks
import BlitzDoc.Proofs.Source.Parents
import BlitzDoc.Proofs.Source.Renumber

/-!
# Declarations over several lines

A line of a declaration that ends in two dots goes on on the next line of code. `ContinuedDeclaration` is
a declaration that is written like this: pieces of code, with comments behind them and lines without
code in between. The main statement is `scan_continued`: where a documentation text waits, the lines are
read as if the pieces stood on one line, and only the numbers of the lines below differ.

`lines_continued` is the heart of the proof: in every state that waits for a declaration, or goes on
with one, the lines do exactly what the joined line does. The rest of the source is the same but
starts at another number, and `lines_renumber` takes care of it.

Comments between the pieces are the exception. They drop a text that waits, and one goes on waiting
while the lines belong to an earlier declaration: `scan_commented` has such a source.
-/

namespace BlitzDoc.Source

open Text (isBlank dropBlanks dropBlanksEnd IsTrimmed)

namespace Line

/-! ## Code and comments -/

/-- A comment is looked for behind the code. -/
theorem codeOf_append {inString : Bool} {x : List Char} (hx : '\'' ∉ Text.unquoted inString x)
    (y : List Char) :
    codeOf inString (x ++ y) = (codeOf (Text.quotedAfter inString x) y).map (x ++ ·) := by
  induction x generalizing inString with
  | nil => simp [Text.quotedAfter_nil]
  | cons c x ih =>
    rw [Text.quotedAfter_cons, List.cons_append, codeOf]
    by_cases hquote : c = '"'
    · have hx : '\'' ∉ Text.unquoted (!inString) x := by simpa [Text.unquoted, hquote] using hx
      simp [hquote, ih hx, Function.comp_def]
    · have hbeq : (c == '"') = false := beq_eq_false_iff_ne.2 hquote
      have hgoes : (c = '\'' && !inString) = false ∧ '\'' ∉ Text.unquoted inString x := by
        cases inString with
        | false =>
          have hx : '\'' ≠ c ∧ '\'' ∉ Text.unquoted false x := by
            simpa [Text.unquoted, hquote] using hx
          exact ⟨by simp [Ne.symm hx.1], hx.2⟩
        | true => simpa [Text.unquoted, hquote] using hx
      rw [if_neg hquote, hgoes.1, ih hgoes.2, hbeq, Bool.xor_false]
      simp [Function.comp_def]

theorem not_mem_blanks {bs : List Char} (hbs : ∀ c ∈ bs, isBlank c = true) {c : Char}
    (hc : isBlank c = false) : c ∉ bs := by
  intro hmem
  rw [hbs c hmem] at hc
  cases hc

theorem codeOf_comment {bs : List Char} (hbs : ∀ c ∈ bs, isBlank c = true) (rest : List Char) :
    codeOf false (bs ++ '\'' :: rest) = some bs := by
  have hquote : '"' ∉ bs := not_mem_blanks hbs (by decide)
  have hmark : '\'' ∉ Text.unquoted false bs := by
    rw [Text.unquoted_of_not_mem hquote]
    exact not_mem_blanks hbs (by decide)
  rw [codeOf_append hmark, Text.quotedAfter_of_not_mem hquote]
  simp [codeOf]

/-- A text without code is blank, or blanks and a comment. -/
theorem isVoid_cases {y : List Char} (hy : isVoid y = true) :
    (∀ c ∈ y, isBlank c = true) ∨
      ∃ bs rest, (∀ c ∈ bs, isBlank c = true) ∧ y = bs ++ '\'' :: rest := by
  unfold isVoid at hy
  split at hy
  · rename_i hdrop
    exact .inl (List.dropWhile_eq_nil_iff.1 hdrop)
  · rename_i c rest hdrop
    refine .inr ⟨y.takeWhile isBlank, rest, fun c hc => List.mem_takeWhile_imp hc, ?_⟩
    rw [← beq_iff_eq.1 hy, ← hdrop]
    exact List.takeWhile_append_dropWhile.symm

/-- **What is left of a line** is its code. -/
theorem stripComment_append {x y : List Char} (hopen : Text.quotedAfter false x = false)
    (hmark : '\'' ∉ Text.unquoted false x) (hx : dropBlanksEnd x = x) (hy : isVoid y = true) :
    stripComment (dropBlanksEnd (x ++ y)) = x := by
  rcases isVoid_cases hy with hblank | ⟨bs, rest, hbs, rfl⟩
  · have hcode : codeOf false x = none := by
      have hend := codeOf_append hmark []
      rwa [List.append_nil, hopen, codeOf] at hend
    rw [Text.dropBlanksEnd_append_blanks x hblank, hx, stripComment, hcode]
  · have hcode : codeOf false (x ++ (bs ++ '\'' :: dropBlanksEnd rest)) = some (x ++ bs) := by
      rw [codeOf_append hmark, hopen, codeOf_comment hbs]
      rfl
    rw [← List.append_assoc, Text.dropBlanksEnd_append_cons _ (by decide), List.append_assoc,
      stripComment, hcode]
    exact (Text.dropBlanksEnd_append_blanks x hbs).trans hx

theorem afterRem?_append_of_dropBlanks {x y : List Char} (hx : dropBlanks x = x) (hne : x ≠ [])
    (hy : ∀ c ∈ y.head?, isStop c = true) : afterRem? (x ++ y) = (afterRem? x).map (· ++ y) := by
  unfold afterRem? after?
  rw [Text.dropBlanks_append hx hne, hx, afterKeyword?_append (by decide) hy,
    filter_atBoundary_append hy]

end Line

/-! ## Pieces -/

/-- Code that can stand alone on a line. -/
structure Piece where
  text : List Char
  trimmed : IsTrimmed text := by decide
  nonempty : text ≠ [] := by decide
  /-- No string goes on on the next line. -/
  closed : text.count '"' % 2 = 0 := by decide
  /-- No comment starts in it. -/
  uncommented : '\'' ∉ Text.unquoted false text := by decide
  /-- No comment block starts with it. -/
  noBlock : Line.afterRem? text = none := by decide

namespace Piece

theorem quotedAfter_text (p : Piece) : Text.quotedAfter false p.text = false := by
  simp [Text.quotedAfter, p.closed]

/-- The piece with more code behind it, where its last word ends. -/
def append (p : Piece) (more : List Char) (hend : dropBlanksEnd more = more) (hne : more ≠ [])
    (hclosed : more.count '"' % 2 = 0) (hmark : '\'' ∉ Text.unquoted false more)
    (hstop : ∀ c ∈ more.head?, Line.isStop c = true) : Piece where
  text := p.text ++ more
  trimmed := ⟨Text.dropBlanks_append p.trimmed.1 p.nonempty more, Text.dropBlanksEnd_append hend hne _⟩
  nonempty := List.append_ne_nil_of_left_ne_nil p.nonempty more
  closed := by
    have hp := p.closed
    rw [List.count_append]
    omega
  uncommented := by
    rw [Text.unquoted_append, p.quotedAfter_text, List.mem_append, not_or]
    exact ⟨p.uncommented, hmark⟩
  noBlock := by
    rw [Line.afterRem?_append_of_dropBlanks p.trimmed.1 p.nonempty hstop, p.noBlock]
    rfl

/-- Two pieces on one line. -/
def join (p q : Piece) : Piece :=
  p.append (' ' :: q.text) (Text.dropBlanksEnd_append q.trimmed.2 q.nonempty [' ']) (by simp)
    (by simpa using q.closed) (by simpa [Text.unquoted] using q.uncommented)
    (by
      rintro c ⟨⟩
      decide)

theorem text_join (p q : Piece) : (p.join q).text = p.text ++ ' ' :: q.text := rfl

/-- The piece with two dots behind it. -/
def dotted (p : Piece) (gap : List Char) (hgap : ∀ c ∈ gap, isBlank c = true) : Piece :=
  have hquote : '"' ∉ gap ++ ['.', '.'] := by
    simpa using Line.not_mem_blanks hgap (c := '"') (by decide)
  have hmark : '\'' ∉ gap ++ ['.', '.'] := by
    simpa using Line.not_mem_blanks hgap (c := '\'') (by decide)
  p.append (gap ++ ['.', '.']) (Text.dropBlanksEnd_append (by decide) (by simp) gap) (by simp)
    (by rw [List.count_eq_zero.2 hquote])
    (by rwa [Text.unquoted_of_not_mem hquote])
    (by
      cases gap with
      | nil =>
        rintro c ⟨⟩
        decide
      | cons c gap => simp [Line.isStop, hgap c List.mem_cons_self])

theorem text_dotted (p : Piece) (gap : List Char) (hgap : ∀ c ∈ gap, isBlank c = true) :
    (p.dotted gap hgap).text = p.text ++ gap ++ ['.', '.'] :=
  (List.append_assoc _ _ _).symm

/-- Dots at the end of a line are those of its last piece, since a space stands before that. -/
theorem complete_append {q : Piece} (hq : ¬ ['.', '.'] <:+ q.text) (front : List Char) :
    ¬ ['.', '.'] <:+ front ++ ' ' :: q.text := by
  rw [← List.reverse_prefix] at hq ⊢
  rintro ⟨rest, hrest⟩
  have hrest : '.' :: '.' :: rest = q.text.reverse ++ ' ' :: front.reverse := by
    simpa using hrest
  cases hrev : q.text.reverse with
  | nil => exact q.nonempty (List.reverse_eq_nil_iff.1 hrev)
  | cons a more =>
    cases more with
    | nil => simp [hrev] at hrest
    | cons b more =>
      rw [hrev, List.cons_append, List.cons_append, List.cons.injEq, List.cons.injEq] at hrest
      refine hq ⟨more, ?_⟩
      rw [hrev, ← hrest.1, ← hrest.2.1]
      rfl

end Piece

/-! ## Declarations as they are written -/

/-- A piece with what stands around it on its line. -/
structure PlacedPiece extends Piece where
  indent : List Char := []
  behind : List Char := []
  blankIndent : ∀ c ∈ indent, isBlank c = true := by decide
  voidBehind : Line.isVoid behind = true := by decide

def PlacedPiece.line (p : PlacedPiece) : List Char :=
  p.indent ++ p.text ++ p.behind

/-- A line that goes on, and the lines without code below it. -/
structure ContinuedLine extends PlacedPiece where
  /-- The blanks before the dots. -/
  gap : List Char := [' ']
  blankGap : ∀ c ∈ gap, isBlank c = true := by decide
  between : List (List Char) := []
  voidBetween : ∀ l ∈ between, Line.isVoid l = true := by decide

namespace ContinuedLine

/-- The line ends in two dots, up to a comment. -/
def line (c : ContinuedLine) : List Char :=
  c.indent ++ (c.text ++ c.gap ++ ['.', '.']) ++ c.behind

def lines (c : ContinuedLine) : List (List Char) :=
  c.line :: c.between

/-- What stands between the line and the next piece is blank. -/
def isSpaced (c : ContinuedLine) : Bool :=
  c.between.all fun l => l.all isBlank

end ContinuedLine

/-- A declaration over several lines. -/
structure ContinuedDeclaration where
  front : List ContinuedLine
  last : PlacedPiece
  complete : ¬ ['.', '.'] <:+ last.text := by decide

/-- All pieces on one line, with a space between any two. -/
def joined (last : Piece) : List ContinuedLine → Piece
  | [] => last
  | c :: front => c.toPiece.join (joined last front)

namespace ContinuedDeclaration

def lines (d : ContinuedDeclaration) : List (List Char) :=
  d.front.flatMap ContinuedLine.lines ++ [d.last.line]

/-- The declaration on one line. -/
def piece (d : ContinuedDeclaration) : Piece :=
  joined d.last.toPiece d.front

/-- Between the pieces are blank lines at most, and no comments. -/
def isSpaced (d : ContinuedDeclaration) : Bool :=
  d.front.all ContinuedLine.isSpaced

/-- The joined line is complete as well. -/
theorem complete_piece (d : ContinuedDeclaration) : ¬ ['.', '.'] <:+ d.piece.text := by
  rw [piece]
  induction d.front with
  | nil => exact d.complete
  | cons c front ih =>
    rw [joined, Piece.text_join]
    exact Piece.complete_append ih c.text

end ContinuedDeclaration

namespace State

/-! ## Lines -/

section
variable {s : State} (hblocks : s.blocks = [])
include hblocks

/-- **A line of code** is its piece. -/
theorem line_piece (n : Nat) (p : PlacedPiece) : s.line n p.line = s.codeLine n p.text := by
  have hdrop : dropBlanks p.line = p.text ++ p.behind := by
    rw [PlacedPiece.line, List.append_assoc, Text.dropBlanks_blanks_append p.blankIndent,
      Text.dropBlanks_append p.trimmed.1 p.nonempty]
  have hrem : Line.afterRem? p.line = none := by
    rw [← Line.afterRem?_dropBlanks, hdrop, Line.afterRem?_append p.voidBehind, p.noBlock]
    rfl
  have hcode : Line.stripComment (dropBlanksEnd (p.text ++ p.behind)) = p.text :=
    Line.stripComment_append p.quotedAfter_text p.uncommented p.trimmed.2 p.voidBehind
  have htext : dropBlanksEnd (p.text ++ p.behind) ≠ [] := by
    intro hempty
    rw [hempty] at hcode
    exact p.nonempty hcode.symm
  simp only [line, hblocks, hrem, hdrop, hcode, List.isEmpty_eq_false_iff.2 htext,
    List.isEmpty_eq_false_iff.2 p.nonempty, Bool.false_eq_true, if_false]

/-- A line without code says nothing, unless a comment drops a text that waits. -/
theorem line_void (n : Nat) {l : List Char} (hl : Line.isVoid l = true)
    (hwaits : s.pending.isSome → l.all isBlank = true) : s.line n l = s := by
  have hrem : Line.afterRem? l = none := Line.afterRem?_append hl []
  rcases Line.isVoid_cases hl with hblank | ⟨bs, rest, hbs, rfl⟩
  · have hdrop : dropBlanks l = [] := List.dropWhile_eq_nil_iff.2 hblank
    simp only [line, hblocks, hrem, hdrop]
    rfl
  · have hpending : s.pending = none := by
      cases hp : s.pending with
      | none => rfl
      | some doc =>
        have hall := hwaits (by rw [hp]; rfl)
        rw [List.all_eq_true] at hall
        exact absurd (hall '\'' (by simp)) (by decide)
    have htext : dropBlanksEnd (dropBlanks (bs ++ '\'' :: rest)) = '\'' :: dropBlanksEnd rest := by
      rw [Text.dropBlanks_blanks_append hbs]
      exact Text.dropBlanksEnd_append_cons [] (c := '\'') (by decide) rest
    have hcode : Line.stripComment ('\'' :: dropBlanksEnd rest) = [] := rfl
    simp only [line, hblocks, hrem, htext, hcode, discardPending, hpending, List.isEmpty_cons,
      List.isEmpty_nil, Bool.false_eq_true, if_false, if_true]

theorem lines_void (n : Nat) {ls : List (List Char)} (hls : ∀ l ∈ ls, Line.isVoid l = true)
    (hwaits : s.pending.isSome → ∀ l ∈ ls, l.all isBlank = true) : s.lines n ls = s := by
  induction ls generalizing n with
  | nil => rfl
  | cons l ls ih =>
    rw [lines, line_void hblocks n (hls l List.mem_cons_self) fun h => hwaits h l List.mem_cons_self]
    exact ih (n + 1) (fun m hm => hls m (List.mem_cons_of_mem l hm))
      fun h m hm => hwaits h m (List.mem_cons_of_mem l hm)

end

/-! ## Lines that go on -/

theorem declarationLine_dotted (s : State) (doc : OpenDoc) (n : Nat) (front : List Char) (p : Piece)
    (gap : List Char) (hgap : ∀ c ∈ gap, isBlank c = true) :
    s.declarationLine doc n (front ++ (p.dotted gap hgap).text) =
      { s with unfinished := some { doc, line := n, text := front ++ p.text } } := by
  have hstrip : Text.stripEnd? ['.', '.'] (front ++ (p.dotted gap hgap).text) =
      some (front ++ p.text ++ gap) := by
    rw [p.text_dotted, ← List.append_assoc, ← List.append_assoc]
    exact Text.stripEnd?_append _ _
  have hend : dropBlanksEnd (front ++ p.text ++ gap) = front ++ p.text := by
    rw [Text.dropBlanksEnd_append_blanks _ hgap]
    exact Text.dropBlanksEnd_append p.trimmed.2 p.nonempty front
  simp only [declarationLine, hstrip, hend]

/-- After a piece that goes on, a line of code is what both together were before it. -/
structure GoesOn (s : State) (n : Nat) (p : Piece) (s' : State) : Prop where
  blocks : s'.blocks = s.blocks
  unfinished : s'.unfinished.isSome
  /-- A text waits only if it did and an earlier declaration has the piece. -/
  pending : s'.pending.isSome → s.pending.isSome ∧ s.unfinished.isSome
  next : ∀ m code, s'.codeLine m code = s.codeLine n (p.text ++ ' ' :: code)

/-- **A piece with dots** goes on. -/
theorem codeLine_dotted {s : State} (h : s.pending.isSome ∨ s.unfinished.isSome) (n : Nat) (p : Piece)
    (gap : List Char) (hgap : ∀ c ∈ gap, isBlank c = true) :
    GoesOn s n p (s.codeLine n (p.dotted gap hgap).text) := by
  cases hunfinished : s.unfinished with
  | some u =>
    have hline : s.codeLine n (p.dotted gap hgap).text =
        { s with unfinished := some { u with text := u.text ++ ' ' :: p.text } } := by
      rw [codeLine_of_unfinished _ _ hunfinished, List.append_cons, List.append_cons _ _ p.text]
      exact declarationLine_dotted _ u.doc u.line (u.text ++ [' ']) p gap hgap
    rw [hline]
    refine ⟨rfl, rfl, fun hpending => ⟨hpending, by simp [hunfinished]⟩, fun m code => ?_⟩
    rw [codeLine_of_unfinished _ _ rfl, codeLine_of_unfinished _ _ hunfinished]
    simp
  | none =>
    obtain ⟨doc, hpending⟩ : ∃ doc, s.pending = some doc := by
      simpa [hunfinished, Option.isSome_iff_exists] using h
    have hline : s.codeLine n (p.dotted gap hgap).text =
        { s with pending := none, unfinished := some { doc, line := n, text := p.text } } := by
      rw [codeLine_of_pending _ _ hunfinished hpending]
      exact declarationLine_dotted _ doc n [] p gap hgap
    rw [hline]
    refine ⟨rfl, rfl, fun hwaits => by simp at hwaits, fun m code => ?_⟩
    rw [codeLine_of_unfinished _ _ rfl, codeLine_of_pending _ _ hunfinished hpending, ← hunfinished]

/-- **Lines that go on** do what the joined line does. -/
theorem lines_continued (front : List ContinuedLine) (last : PlacedPiece) {s : State}
    (hblocks : s.blocks = []) (h : s.pending.isSome ∨ s.unfinished.isSome)
    (hspaced : s.pending.isSome → s.unfinished.isSome → ∀ c ∈ front, c.isSpaced = true) (n : Nat) :
    s.lines n (front.flatMap ContinuedLine.lines ++ [last.line]) =
      s.codeLine n (joined last.toPiece front).text := by
  induction front generalizing s n with
  | nil => exact line_piece hblocks n last
  | cons c front ih =>
    let dots : PlacedPiece := { c.toPlacedPiece with toPiece := c.toPiece.dotted c.gap c.blankGap }
    have hdots : c.line = dots.line := by
      rw [ContinuedLine.line, ← c.text_dotted c.gap c.blankGap]
      rfl
    have hgoes : GoesOn s n c.toPiece (s.codeLine n dots.text) :=
      codeLine_dotted h n c.toPiece c.gap c.blankGap
    rw [List.flatMap_cons, List.append_assoc, ContinuedLine.lines, List.cons_append, lines, hdots,
      line_piece hblocks, lines_append]
    generalize s.codeLine n dots.text = s' at hgoes ⊢
    have hblocks' : s'.blocks = [] := hgoes.blocks.trans hblocks
    have hspaced' (hwaits : s'.pending.isSome) : ∀ c' ∈ c :: front, c'.isSpaced = true :=
      hspaced (hgoes.pending hwaits).1 (hgoes.pending hwaits).2
    have hbetween : s'.lines (n + 1) c.between = s' :=
      lines_void hblocks' (n + 1) c.voidBetween fun hwaits =>
        List.all_eq_true.1 (hspaced' hwaits c List.mem_cons_self)
    rw [hbetween, ih hblocks' (.inr hgoes.unfinished)
      fun hwaits _ c' hc' => hspaced' hwaits c' (List.mem_cons_of_mem c hc'), joined, Piece.text_join]
    exact hgoes.next _ _

/-! ## The entry -/

/-- A complete declaration is the next entry. -/
theorem declaredAt_declarationLine (s : State) (doc : OpenDoc) (n : Nat) {text : List Char}
    (h : ¬ ['.', '.'] <:+ text) :
    DeclaredAt (s.declarationLine doc n text).result.docs s.result.docs.length
      fun found => found.line = n ∧ found.raw = String.ofList text := by
  have hstrip : Text.stripEnd? ['.', '.'] text = none := if_neg (by simpa using h)
  simp only [declarationLine, hstrip]
  rw [(structureLine_structured _ _ _ _).docs, bind_result]
  exact ⟨entryOf doc _, List.getElem?_concat_length, rfl, rfl⟩

end State

/-! ## Scans -/

/-- The numbers of lines once `k` lines are added below line `m`. -/
def addedBelow (m k i : Nat) : Nat :=
  if i ≤ m then i else i + k

section
variable {source source' : String} {before after : List (List Char)} (d : ContinuedDeclaration)
  {file : Path} {options : Options} {s : State}

/-- Both sources are in the same state behind the declaration, and have the same lines below it. -/
theorem lastState_continued (hsource : Text.lines source.toList = before ++ d.lines ++ after)
    (hsource' : Text.lines source'.toList = before ++ d.piece.text :: after)
    (hs : State.lines { file, options } 1 before = s) (hwaits : s.pending.isSome = true)
    (hspaced : s.unfinished = none ∨ d.isSpaced = true) :
    let s' := s.codeLine (before.length + 1) d.piece.text
    State.lines { file, options } 1 (before ++ [d.piece.text]) = s' ∧
      lastState source file options = s'.lines (before.length + 1 + d.lines.length) after ∧
      lastState source' file options = s'.lines (before.length + 1 + 1) after := by
  have hblocks : s.blocks = [] := by
    have horderly : s.ledger.Orderly := by
      rw [← hs]
      exact (State.lines_step (Ledger.orderly_code rfl rfl) 1 before).1
    by_contra hne
    have halone : s.pending.isSome = false := horderly.alone hne
    rw [halone] at hwaits
    cases hwaits
  have hgoes : s.lines (before.length + 1) d.lines = s.codeLine (before.length + 1) d.piece.text := by
    refine State.lines_continued d.front d.last hblocks (.inl hwaits) (fun _ hsome => ?_) _
    rcases hspaced with hnone | hall
    · rw [hnone] at hsome
      cases hsome
    · exact List.all_eq_true.1 hall
  have hline : s.line (before.length + 1) d.piece.text = s.codeLine (before.length + 1) d.piece.text := by
    have hplaced := State.line_piece hblocks (before.length + 1) { toPiece := d.piece }
    rwa [PlacedPiece.line, List.nil_append, List.append_nil] at hplaced
  refine ⟨?_, ?_, ?_⟩
  · rw [State.lines_append, hs, Nat.add_comm 1]
    exact hline
  · rw [lastState, hsource, List.append_assoc, State.lines_append, hs, State.lines_append,
      Nat.add_comm 1, hgoes]
  · rw [lastState, hsource', State.lines_append, hs, State.lines, Nat.add_comm 1, hline]

variable (file options) in
/-- **Declarations over several lines.** Where a documentation text waits, a declaration over several
lines is scanned as if it stood on the first of them and the lines below had higher numbers: all else
is the same, in the entries, the links, the module, the targets and the events. It is the next entry
and has the number of its first line. If an earlier declaration goes on, the pieces belong to that one
and only blank lines may stand between them. -/
theorem scan_continued (hsource : Text.lines source.toList = before ++ d.lines ++ after)
    (hsource' : Text.lines source'.toList = before ++ d.piece.text :: after)
    (hs : State.lines { file, options } 1 before = s) (hwaits : s.pending.isSome = true)
    (hspaced : s.unfinished = none ∨ d.isSpaced = true) :
    let docs := (scan source file options).analysis.docs
    scan source file options = (scan source' file options).renumber
        (addedBelow (before.length + 1) (d.lines.length - 1)) ∧
      (s.unfinished = none → DeclaredAt docs s.result.docs.length fun found =>
        found.line = before.length + 1 ∧ found.raw = String.ofList d.piece.text) ∧
      ∀ u, s.unfinished = some u → DeclaredAt docs s.result.docs.length fun found =>
        found.line = u.line ∧ found.raw = String.ofList (u.text ++ ' ' :: d.piece.text) := by
  obtain ⟨hbehind, hlong, hshort⟩ := lastState_continued d hsource hsource' hs hwaits hspaced
  have hentry {P : Declaration → Prop}
      (h : DeclaredAt (s.codeLine (before.length + 1) d.piece.text).result.docs s.result.docs.length P) :
      DeclaredAt (scan source file options).analysis.docs s.result.docs.length P := by
    rw [scan_eq, hlong]
    exact State.declaredAt_finish (State.declaredAt_lines h _ after)
  refine ⟨?_, fun hunfinished => hentry ?_, fun u hunfinished => hentry ?_⟩
  · apply scan_renumber
    have hpos : 0 < d.lines.length := by simp [ContinuedDeclaration.lines]
    have hkept := State.renumber_lines_start (addedBelow (before.length + 1) (d.lines.length - 1)) file
      options (before ++ [d.piece.text]) fun i hi => if_pos (by simpa using hi)
    rw [hbehind] at hkept
    rw [hlong, hshort, State.lines_renumber _ _ _ (before.length + 1 + d.lines.length), hkept]
    intro i _
    rw [addedBelow, if_neg (by omega)]
    omega
  · obtain ⟨doc, hpending⟩ := Option.isSome_iff_exists.1 hwaits
    rw [State.codeLine_of_pending _ _ hunfinished hpending]
    exact State.declaredAt_declarationLine _ doc _ d.complete_piece
  · rw [State.codeLine_of_unfinished _ _ hunfinished]
    exact State.declaredAt_declarationLine _ u.doc _ (Piece.complete_append d.complete_piece u.text)

end

/-- Three pieces, with comments behind them and lines without code in between. -/
def spread : ContinuedDeclaration where
  front := [
    { text := "Function F(".toList, behind := " ' f".toList, between := [[], "\t' g".toList] },
    { text := "s$ = \"it's\",".toList, indent := ['\t'], gap := [] }]
  last := { text := "n:Int )".toList, behind := "  ' it's all".toList }

/-- A declaration over five lines and an entry below it. -/
theorem scan_spread :
    let before := ["Rem".toList, "bbdoc: A".toList, "End Rem".toList]
    let after := ["Rem".toList, "bbdoc: B".toList, "End Rem".toList, "Const N = 1".toList]
    let long := "Rem\nbbdoc: A\nEnd Rem\nFunction F( .. ' f\n\n\t' g\n\ts$ = \"it's\",..\nn:Int )  ' it's all\n"
      ++ "Rem\nbbdoc: B\nEnd Rem\nConst N = 1\n"
    let short := "Rem\nbbdoc: A\nEnd Rem\nFunction F( s$ = \"it's\", n:Int )\n"
      ++ "Rem\nbbdoc: B\nEnd Rem\nConst N = 1\n"
    let s := State.lines { file := ⟨"f.bmx"⟩, options := {} } 1 before
    Text.lines long.toList = before ++ spread.lines ++ after ∧
      Text.lines short.toList = before ++ spread.piece.text :: after ∧
      s.pending.isSome = true ∧ s.unfinished = none ∧
      scan long ⟨"f.bmx"⟩ {} = (scan short ⟨"f.bmx"⟩ {}).renumber (addedBelow 4 4) ∧
      (scan short ⟨"f.bmx"⟩ {}).analysis.docs.map (·.declaration.line) = [4, 8] := by
  intro before after long short s
  have hlong : Text.lines long.toList = before ++ spread.lines ++ after := by decide +kernel
  have hshort : Text.lines short.toList = before ++ spread.piece.text :: after := by decide +kernel
  have hwaits : s.pending.isSome = true := by decide +kernel
  have hunfinished : s.unfinished = none := by decide +kernel
  exact ⟨hlong, hshort, hwaits, hunfinished,
    (scan_continued spread _ _ hlong hshort rfl hwaits (.inl hunfinished)).1, by decide +kernel⟩

/-- A declaration with a comment between its lines. -/
def commented : ContinuedDeclaration where
  front := [{ text := "Function B(".toList, between := ["' note".toList] }]
  last := { text := "x:Int )".toList }

/-- An import over two lines. -/
def longImport : ContinuedDeclaration where
  front := [{ text := "Import".toList }]
  last := { text := "BRL.Map".toList }

/-- Where a declaration goes on when a documentation text ends, the text goes on waiting, and a comment
drops it. A text with a keyword does not wait, and lines behind it are not joined. -/
theorem scan_commented :
    (let before := ["Rem".toList, "bbdoc: A".toList, "End Rem".toList, "Function A( ..".toList,
        "Rem".toList, "bbdoc: B".toList, "End Rem".toList]
      let after := ["Function C()".toList]
      let long := "Rem\nbbdoc: A\nEnd Rem\nFunction A( ..\nRem\nbbdoc: B\nEnd Rem\n"
        ++ "Function B( ..\n' note\nx:Int )\nFunction C()\n"
      let short := "Rem\nbbdoc: A\nEnd Rem\nFunction A( ..\nRem\nbbdoc: B\nEnd Rem\n"
        ++ "Function B( x:Int )\nFunction C()\n"
      Text.lines long.toList = before ++ commented.lines ++ after ∧
        Text.lines short.toList = before ++ commented.piece.text :: after ∧
        (State.lines { file := ⟨"test.bmx"⟩, options := {} } 1 before).pending.isSome = true ∧
        (scan long ⟨"test.bmx"⟩ {}).analysis.docs.map (·.info) = ["A"] ∧
        (scan short ⟨"test.bmx"⟩ {}).analysis.docs.map (·.info) = ["A", "B"]) ∧
      let before := ["Rem".toList, "bbdoc: K".toList, "keyword: K".toList, "End Rem".toList]
      let long := "Rem\nbbdoc: K\nkeyword: K\nEnd Rem\nImport ..\nBRL.Map\n"
      let short := "Rem\nbbdoc: K\nkeyword: K\nEnd Rem\nImport BRL.Map\n"
      let options := { followImports := true }
      Text.lines long.toList = before ++ longImport.lines ∧
        Text.lines short.toList = before ++ [longImport.piece.text] ∧
        (scan long ⟨"test.bmx"⟩ options).analysis.moduleImports = [".."] ∧
        (scan short ⟨"test.bmx"⟩ options).analysis.moduleImports = ["brl.map"] := by
  decide +kernel

end BlitzDoc.Source
