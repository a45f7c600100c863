import BlitzDoc.Proofs.Source.Keywords
import BlitzDoc.Proofs.Source.Turn
import BlitzDoc.Proofs.Text.Lines

/-!
# Documented declarations, printed and scanned

A `Forest` is a tree of documented declarations as a source lays it out: each has its documentation
text, its signature and, if it is an aggregate, its members, and between the declarations there may
be lines that say nothing to a scan. `Forest.print` writes it down and `Forest.entries` lists what
it documents, every declaration before its members. The main statement is `scan_forest`: the scan of
the printed forest finds exactly those entries.

The proof follows the forest with a scan that is `Idle` between two declarations: no block, no text
and no declaration is open then, so that only the open aggregates link one declaration to the next.
-/

namespace BlitzDoc.Source

open Text (IsTrimmed IsLine)

/-! ## Documentation texts -/

/-- The word that a tag is written with. -/
def Tag.word : Tag → String
  | bbdoc => "bbdoc"
  | about => "about"
  | keyword => "keyword"
  | returns => "returns"

/-- The line goes on with the part that `tag` started: it is not read as a tag itself. In the long
text, a colon behind a short word makes no tag unless the word is one. -/
def continues (tag : Tag) (l : List Char) : Bool :=
  match Line.splitTag? l with
  | some (name, _) => tag == .about && (Tag.ofName? name).isNone
  | none => true

/-- One part of a documentation text, as lines. -/
structure Passage (tag : Tag) where
  first : List Char
  more : List (List Char) := []
  trimmed : ∀ l ∈ first :: more, IsTrimmed l := by decide
  oneLine : ∀ l ∈ first :: more, '\n' ∉ l := by decide
  starts : first ≠ [] := by decide
  ends : (first :: more).getLast? ≠ some [] := by decide
  inside : ∀ l ∈ more, Line.isEndRem l = false := by decide
  goesOn : ∀ l ∈ more, continues tag l = true := by decide

namespace Passage
variable {tag : Tag}

/-- The lines of the part, the first behind its tag. -/
def print (p : Passage tag) : List (List Char) :=
  (tag.word.toList ++ ':' :: ' ' :: p.first) :: p.more

/-- The lines of the part alone. -/
def strings (p : Passage tag) : List String :=
  (p.first :: p.more).map String.ofList

/-- The part as one text. -/
def text (p : Passage tag) : String :=
  "\n".intercalate p.strings

end Passage

/-- The documentation of a declaration, with its signature. -/
structure Head where
  info : Passage .bbdoc
  returns : Option (Passage .returns) := none
  about : Option (Passage .about) := none
  /-- The blank lines before the signature. -/
  blanks : List (List Char) := []
  signature : List Char
  blank : ∀ l ∈ blanks, IsLine l ∧ Text.dropBlanks l = [] := by decide
  trimmed : IsTrimmed signature := by decide
  oneLine : '\n' ∉ signature := by decide
  uncommented : Line.codeOf false signature = none := by decide
  complete : Text.stripEnd? ['.', '.'] signature = none := by decide

namespace Head

/-- The comment block of the documentation. -/
def comment (h : Head) : List (List Char) :=
  "Rem".toList :: h.info.print ++ h.returns.elim [] Passage.print ++ h.about.elim [] Passage.print
    ++ ["End Rem".toList]

def print (h : Head) : List (List Char) :=
  h.comment ++ h.blanks ++ [h.signature]

/-- The entry of a declaration whose signature stands on a line of a file. -/
def entry (h : Head) (file : Path) (line : Nat) (parent : Option Nat) : DocEntry :=
  let declaration : Declaration :=
    { (Signature.read (String.ofList h.signature) file line).1 with
      raw := String.ofList h.signature, file, line, parent }
  let about := h.about.map Passage.text
  { info := h.info.text
    about
    aboutMarkdown := about.map About.toMarkdown
    aboutPlain := about.map About.toPlain
    returns := h.returns.map Passage.text
    declaration
    searchKey := Text.lower declaration.name }

end Head

/-! ## Forests -/

/-- A documented declaration without members. -/
structure Leaf extends Head where
  starts : Line.startsLeaf signature = true := by decide

/-- A documented aggregate. -/
structure Inner extends Head where
  kind : Kind
  isAggregate : kind.isAggregate = true := by decide
  opens : Line.opens kind.word signature = true := by decide

/-- The line that ends the aggregate. -/
def Inner.ending (node : Inner) : List Char :=
  "End ".toList ++ node.kind.label.toList

/-- A line that may stand between two declarations: it starts no comment block, and neither opens
nor ends an aggregate. Blank lines, lines with only a comment and most lines of code are such. -/
def isFiller (l : List Char) : Bool :=
  (Line.afterRem? l).isNone &&
    let code := Line.stripComment (Text.dropBlanksEnd (Text.dropBlanks l))
    !Line.opensAggregate code && !Line.closesAggregate code

/-- Lines between two declarations. -/
structure Gap where
  lines : List (List Char) := []
  oneLine : ∀ l ∈ lines, IsLine l := by decide
  filler : ∀ l ∈ lines, isFiller l = true := by decide

/-- Documented declarations one after the other, an aggregate with its members in between. -/
inductive Forest where
  | done (gap : Gap)
  | leaf (gap : Gap) (node : Leaf) (rest : Forest)
  | inner (gap : Gap) (node : Inner) (members rest : Forest)

namespace Forest

/-- The lines of the forest. -/
def print : Forest → List (List Char)
  | done gap => gap.lines
  | leaf gap node rest => gap.lines ++ node.print ++ rest.print
  | inner gap node members rest =>
    gap.lines ++ node.print ++ members.print ++ node.ending :: rest.print

/-- The forest as a source. -/
def text (F : Forest) : String :=
  String.ofList (Text.unlines F.print)

/-- The number of declarations. -/
def count : Forest → Nat
  | done _ => 0
  | leaf _ _ rest => 1 + rest.count
  | inner _ _ members rest => 1 + members.count + rest.count

/-- What the forest documents when it stands in a file from line `n` on, as entries that are listed
from place `place` on. The signature of a declaration is the last line of its head. -/
def entries (file : Path) : Forest → (n place : Nat) → (parent : Option Nat) → List DocEntry
  | done _, _, _, _ => []
  | leaf gap node rest, n, place, parent =>
    let next := n + gap.lines.length + node.print.length
    node.entry file (next - 1) parent :: rest.entries file next (place + 1) parent
  | inner gap node members rest, n, place, parent =>
    let next := n + gap.lines.length + node.print.length
    node.entry file (next - 1) parent ::
      (members.entries file next (place + 1) (some place)
        ++ rest.entries file (next + members.print.length + 1) (place + members.count + 1) parent)

theorem length_entries (F : Forest) (file : Path) (n place : Nat) (parent : Option Nat) :
    (F.entries file n place parent).length = F.count := by
  induction F generalizing n place parent with
  | done gap => rfl
  | leaf gap node rest ih =>
    simp only [entries, count, List.length_cons, ih]
    omega
  | inner gap node members rest ihm ihr =>
    simp only [entries, count, List.length_cons, List.length_append, ihm, ihr]
    omega

end Forest

/-! ## Reading a documentation text -/

/-- Adds a part to a documentation text. -/
def OpenDoc.tell {tag : Tag} (d : OpenDoc) (p : Passage tag) : OpenDoc :=
  (p.first :: p.more).foldl OpenDoc.push { d with tag }

theorem foldl_push (d : OpenDoc) (ls : List (List Char)) :
    ls.foldl OpenDoc.push d =
      match d.tag with
      | .bbdoc => { d with info := d.info ++ ls.map String.ofList }
      | .about => { d with about := d.about ++ ls.map String.ofList }
      | .returns => { d with returns := d.returns ++ ls.map String.ofList }
      | .keyword => d := by
  induction ls generalizing d with
  | nil =>
    obtain ⟨line, tag, info, about, returns, keyword⟩ := d
    cases tag <;> simp
  | cons l ls ih =>
    obtain ⟨line, tag, info, about, returns, keyword⟩ := d
    cases tag <;> simp [ih, OpenDoc.push]

theorem tell_eq {tag : Tag} (d : OpenDoc) (p : Passage tag) :
    d.tell p =
      match tag with
      | .bbdoc => { d with tag, info := d.info ++ p.strings }
      | .about => { d with tag, about := d.about ++ p.strings }
      | .returns => { d with tag, returns := d.returns ++ p.strings }
      | .keyword => { d with tag } := by
  rw [OpenDoc.tell, foldl_push]
  cases tag <;> rfl

theorem push_tag (d : OpenDoc) (l : List Char) : (d.push l).tag = d.tag := by
  unfold OpenDoc.push
  split <;> rfl

theorem splitTag?_tagLine {tag : Tag} (first : List Char) :
    Line.splitTag? (tag.word.toList ++ ':' :: ' ' :: first) = some (tag.word, ' ' :: first) := by
  have hsplit : Text.splitOnce? (· == ':') (tag.word.toList ++ ':' :: ' ' :: first) =
      some (tag.word.toList, ' ' :: first) := by
    cases tag <;> rfl
  have hname : Text.dropBlanksEnd (Text.dropBlanks tag.word.toList) = tag.word.toList := by
    cases tag <;> decide
  have hshort : (!tag.word.toList.isEmpty && tag.word.toList.length < 8) = true := by
    cases tag <;> decide
  have hlower : Text.lowerAscii (String.ofList tag.word.toList) = tag.word := by
    rw [← String.toList_inj, Text.lowerAscii, String.toList_map, String.toList_ofList]
    cases tag <;> decide
  simp only [Line.splitTag?, hsplit, hname, hshort, ↓reduceIte, hlower]

theorem ofName?_word (tag : Tag) : Tag.ofName? tag.word = some tag := by
  cases tag <;> rfl

theorem isTrimmed_tagLine (tag : Tag) {first : List Char} (hfirst : IsTrimmed first)
    (hne : first ≠ []) : IsTrimmed (tag.word.toList ++ ':' :: ' ' :: first) := by
  constructor
  · cases tag <;> rfl
  · have hsplit : tag.word.toList ++ ':' :: ' ' :: first =
        (tag.word.toList ++ [':', ' ']) ++ first := by simp
    rw [hsplit]
    exact Text.dropBlanksEnd_append hfirst.2 hne _

namespace State

/-- The state inside a documentation text. -/
def reading (s : State) (d : OpenDoc) : State :=
  { s with blocks := [.doc], openDoc := some d }

/-- The state behind a documentation text. -/
def waiting (s : State) (d : OpenDoc) : State :=
  { s with pending := some d }

theorem docLine_first (s : State) (d : OpenDoc) (n : Nat) {tag : Tag} (htag : tag ≠ .keyword)
    {first : List Char} (hfirst : IsTrimmed first) :
    (s.reading d).docLine n (tag.word.toList ++ ':' :: ' ' :: first) =
      s.reading ({ d with tag }.push first) := by
  have hvalue : Text.dropBlanksEnd (Text.dropBlanks (' ' :: first)) = first := by
    have hspace : Text.dropBlanks (' ' :: first) = Text.dropBlanks first := rfl
    rw [hspace, hfirst.1, hfirst.2]
  simp only [docLine, reading, splitTag?_tagLine, ofName?_word, hvalue]

theorem docLine_more (s : State) (d : OpenDoc) (n : Nat) {l : List Char}
    (hl : continues d.tag l = true) : (s.reading d).docLine n l = s.reading (d.push l) := by
  simp only [docLine, reading]
  unfold continues at hl
  split
  · rename_i name rest hsplit
    simp only [hsplit, Bool.and_eq_true, beq_iff_eq, Option.isNone_iff_eq_none] at hl
    simp only [hl.2, hl.1, ↓reduceIte]
  · rfl

theorem line_reading (s : State) (d : OpenDoc) (n : Nat) {l : List Char} (hl : IsTrimmed l)
    (hend : Line.isEndRem l = false) : (s.reading d).line n l = (s.reading d).docLine n l := by
  simp only [line, reading, blockLine, hend, hl.1, hl.2, Bool.false_eq_true, ↓reduceIte]

/-- The lines that go on with a part. -/
theorem lines_more (s : State) (d : OpenDoc) (n : Nat) {ls : List (List Char)}
    (htrimmed : ∀ l ∈ ls, IsTrimmed l) (hinside : ∀ l ∈ ls, Line.isEndRem l = false)
    (hgoes : ∀ l ∈ ls, continues d.tag l = true) :
    (s.reading d).lines n ls = s.reading (ls.foldl OpenDoc.push d) := by
  induction ls generalizing d n with
  | nil => rfl
  | cons l ls ih =>
    simp only [List.forall_mem_cons] at htrimmed hinside hgoes
    rw [lines, line_reading s d n htrimmed.1 hinside.1, docLine_more s d n hgoes.1,
      ih _ _ htrimmed.2 hinside.2 (by rw [push_tag]; exact hgoes.2), List.foldl_cons]

/-- **A part is read as it was printed.** -/
theorem lines_passage (s : State) (d : OpenDoc) (n : Nat) {tag : Tag} (htag : tag ≠ .keyword)
    (p : Passage tag) : (s.reading d).lines n p.print = s.reading (d.tell p) := by
  have htrimmed := p.trimmed
  simp only [List.forall_mem_cons] at htrimmed
  have hend : Line.isEndRem (tag.word.toList ++ ':' :: ' ' :: p.first) = false := by
    cases tag <;> rfl
  have hmore : ∀ l ∈ p.more, continues ({ d with tag }.push p.first).tag l = true := by
    rw [push_tag]
    exact p.goesOn
  rw [Passage.print, lines, line_reading s d n (isTrimmed_tagLine tag htrimmed.1 p.starts) hend,
    docLine_first s d n htag htrimmed.1, lines_more _ _ _ htrimmed.2 p.inside hmore]
  rfl

/-! ## Between two declarations -/

/-- Nothing is being read, and links are not noted. -/
structure Idle (s : State) : Prop where
  blocks : s.blocks = []
  awaiting : s.awaitingFirstLine = false
  openDoc : s.openDoc = none
  pending : s.pending = none
  unfinished : s.unfinished = none
  isModuleEntry : s.options.isModuleEntry = false
  followImports : s.options.followImports = false

/-- Outside the aggregates, an idle scan does nothing with the structure of a line. -/
theorem structureLine_plain {s : State} (hidle : Idle s) (n : Nat) {code : List Char}
    (hopens : Line.opensAggregate code = false) (hcloses : Line.closesAggregate code = false)
    (entry : Option Nat) : s.structureLine n code entry = s := by
  have hlinks : s.recordsLinks = false := by
    simp [recordsLinks, hidle.isModuleEntry, hidle.followImports]
  simp only [structureLine, hopens, hcloses, hlinks, hidle.isModuleEntry, Bool.false_eq_true,
    ↓reduceIte]
  split
  · rfl
  · split
    · rfl
    · split <;> rfl

theorem line_filler {s : State} (hidle : Idle s) (n : Nat) {l : List Char} (hl : isFiller l = true) :
    s.line n l = s := by
  simp only [isFiller, Bool.and_eq_true, Option.isNone_iff_eq_none, Bool.not_eq_true'] at hl
  obtain ⟨hrem, hopens, hcloses⟩ := hl
  simp only [line, hidle.blocks, hrem]
  split
  · rfl
  · split
    · simp only [discardPending, hidle.pending]
    · simp only [codeLine, hidle.unfinished, hidle.pending]
      exact structureLine_plain hidle n hopens hcloses none

theorem lines_filler {s : State} (hidle : Idle s) (n : Nat) {ls : List (List Char)}
    (hls : ∀ l ∈ ls, isFiller l = true) : s.lines n ls = s := by
  induction ls generalizing n with
  | nil => rfl
  | cons l ls ih =>
    rw [lines, line_filler hidle n (hls l List.mem_cons_self)]
    exact ih (n + 1) fun m hm => hls m (List.mem_cons_of_mem _ hm)

/-- `Rem` and the tag line behind it open a documentation text. -/
theorem lines_open {s : State} (hidle : Idle s) (n : Nat) (p : Passage .bbdoc) :
    s.lines n ("Rem".toList :: p.print) = s.reading (OpenDoc.tell { line := n + 1 } p) := by
  have hrem : s.line n "Rem".toList = { s with blocks := [.comment], awaitingFirstLine := true } := by
    have hafter : Line.afterRem? "Rem".toList = some [] := by decide
    simp only [line, hidle.blocks, hafter, discardPending, hidle.pending]
    rfl
  have htrimmed := isTrimmed_tagLine .bbdoc (p.trimmed p.first List.mem_cons_self) p.starts
  have hend : Line.isEndRem (Tag.bbdoc.word.toList ++ ':' :: ' ' :: p.first) = false := rfl
  have hstarts : Line.startsDoc (Tag.bbdoc.word.toList ++ ':' :: ' ' :: p.first) = true := rfl
  have hfirst : (s.line n "Rem".toList).line (n + 1) (Tag.bbdoc.word.toList ++ ':' :: ' ' :: p.first) =
      (s.reading { line := n + 1 }).line (n + 1) (Tag.bbdoc.word.toList ++ ':' :: ' ' :: p.first) := by
    rw [hrem, line_reading s _ (n + 1) htrimmed hend]
    -- the first line that is no blank ends the wait for one
    have hwait : { s with
        awaitingFirstLine := false, blocks := [.doc], openDoc := some { line := n + 1 } } =
          s.reading { line := n + 1 } := by
      rw [reading, hidle.awaiting]
    rw [← hwait]
    simp only [line, blockLine, hend, htrimmed.1, htrimmed.2, hstarts, Bool.false_eq_true, ↓reduceIte]
    rfl
  rw [lines, Passage.print, lines, hfirst, ← lines]
  exact lines_passage s _ (n + 1) (by simp) p

theorem line_close {s : State} (hidle : Idle s) (n : Nat) {d : OpenDoc} (hd : d.keyword = none) :
    (s.reading d).line n "End Rem".toList = s.waiting d := by
  have hend : Line.isEndRem "End Rem".toList = true := by decide
  simp only [line, reading, blockLine, hend, closeBlock, List.head?_cons, hd, List.tail_cons,
    ↓reduceIte, waiting, hidle.blocks, hidle.openDoc]

theorem lines_blanks {s : State} (hidle : Idle s) (d : OpenDoc) (n : Nat) {ls : List (List Char)}
    (hls : ∀ l ∈ ls, Text.dropBlanks l = []) : (s.waiting d).lines n ls = s.waiting d := by
  induction ls generalizing n with
  | nil => rfl
  | cons l ls ih =>
    have hl := hls l List.mem_cons_self
    have hrem : Line.afterRem? l = none := by
      rw [Line.afterRem?, Line.after?, hl]
      rfl
    have hline : (s.waiting d).line n l = s.waiting d := by
      simp only [line, waiting, hidle.blocks, hrem, hl]
      rfl
    rw [lines, hline]
    exact ih (n + 1) fun m hm => hls m (List.mem_cons_of_mem _ hm)

/-- The signature is bound to the text that waits, and its structure is taken. -/
theorem line_signature {s : State} (hidle : Idle s) (d : OpenDoc) (n : Nat) (h : Head)
    (hrem : Line.afterRem? h.signature = none) (hne : h.signature ≠ []) :
    (s.waiting d).line n h.signature =
      (s.bind d n h.signature).structureLine n h.signature (some s.result.docs.length) := by
  have hcode : Line.stripComment h.signature = h.signature := by
    rw [Line.stripComment, h.uncommented]
  have hbound : { s with pending := none } = s := by
    rw [← hidle.pending]
  simp only [line, waiting, hidle.blocks, hrem, h.trimmed.1, h.trimmed.2, hcode,
    List.isEmpty_eq_false_iff.2 hne, codeLine, hidle.unfinished, declarationLine, h.complete,
    Bool.false_eq_true, ↓reduceIte]
  rw [← hidle.blocks, ← hidle.unfinished, hbound]

end State

/-! ## One declaration -/

/-- The documentation text of a declaration whose comment starts on the line before `line`. -/
def Head.doc (h : Head) (line : Nat) : OpenDoc :=
  let d := OpenDoc.tell { line } h.info
  let d := h.returns.elim d d.tell
  h.about.elim d d.tell

theorem doc_keyword (h : Head) (line : Nat) : (h.doc line).keyword = none := by
  unfold Head.doc
  cases h.returns <;> cases h.about <;> simp [tell_eq]

theorem joinLines_strings {tag : Tag} (p : Passage tag) :
    State.joinLines p.strings = some p.text := by
  have htext : p.text = String.ofList (['\n'].intercalate (p.first :: p.more)) := by
    have hlists : p.strings.map String.toList = p.first :: p.more := by
      simp [Passage.strings, Function.comp_def]
    rw [← String.toList_inj, Passage.text, String.toList_intercalate, hlists]
    exact String.toList_ofList.symm
  have htrim : Text.trim p.text = p.text := by
    rw [htext]
    exact Text.trim_ofList (Text.isTrimmed_intercalate p.trimmed p.starts p.ends)
  have hne : p.text.isEmpty = false := by
    obtain ⟨rest, hrest⟩ := Text.intercalate_cons_eq_append ['\n'] p.first p.more
    rw [htext, hrest]
    simp [p.starts]
  rw [State.joinLines, ← Passage.text, htrim, Text.nonEmpty?, hne]
  rfl

theorem joinLines_elim {tag : Tag} (p : Option (Passage tag)) :
    State.joinLines (p.elim [] Passage.strings) = p.map Passage.text := by
  cases p with
  | none => rfl
  | some p => exact joinLines_strings p

/-- Every part of a declaration's documentation is where it belongs. -/
theorem doc_parts (h : Head) (line : Nat) :
    (h.doc line).info = h.info.strings ∧ (h.doc line).returns = h.returns.elim [] Passage.strings ∧
      (h.doc line).about = h.about.elim [] Passage.strings := by
  unfold Head.doc
  cases h.returns <;> cases h.about <;> simp [tell_eq]

/-- The entry of a documentation text is the one that its declaration stands for. -/
theorem entryOf_doc (h : Head) (file : Path) (line n : Nat) (parent : Option Nat) :
    State.entryOf (h.doc line)
      { (Signature.read (String.ofList h.signature) file n).1 with parent } =
      h.entry file n parent := by
  obtain ⟨hinfo, hreturns, habout⟩ := doc_parts h line
  simp only [State.entryOf, hinfo, hreturns, habout, joinLines_strings, joinLines_elim]
  rfl

namespace State

/-- What a scan complains about in the signature of an entry. -/
def complaints (e : DocEntry) : List Event :=
  (Signature.read e.declaration.raw e.declaration.file e.declaration.line).2.map
    (Event.malformedSignature e.declaration.file e.declaration.line e.declaration.raw)

/-- The state with more entries, and what there is to complain about in them. -/
def gains (s : State) (docs : List DocEntry) : State :=
  { s with
    result := { s.result with docs := s.result.docs ++ docs }
    log := s.log ++ docs.flatMap complaints }

@[simp] theorem gains_file (s : State) (docs : List DocEntry) : (s.gains docs).file = s.file := rfl

@[simp] theorem gains_aggregates (s : State) (docs : List DocEntry) :
    (s.gains docs).aggregates = s.aggregates := rfl

@[simp] theorem gains_docs (s : State) (docs : List DocEntry) :
    (s.gains docs).result.docs = s.result.docs ++ docs := rfl

@[simp] theorem gains_nil (s : State) : s.gains [] = s := by
  simp [gains]

@[simp] theorem gains_gains (s : State) (xs ys : List DocEntry) :
    (s.gains xs).gains ys = s.gains (xs ++ ys) := by
  simp [gains]

theorem Idle.gains {s : State} (h : Idle s) (docs : List DocEntry) : Idle (s.gains docs) :=
  ⟨h.blocks, h.awaiting, h.openDoc, h.pending, h.unfinished, h.isModuleEntry, h.followImports⟩

theorem bind_doc (s : State) (h : Head) (line n : Nat) :
    s.bind (h.doc line) n h.signature =
      s.gains [h.entry s.file n s.aggregates.head?.join] := by
  rw [← entryOf_doc h s.file line n]
  simp only [State.bind, gains, pushEntry, List.flatMap_singleton]
  rfl

theorem lines_optional (s : State) (d : OpenDoc) (n : Nat) {tag : Tag} (htag : tag ≠ .keyword)
    (p : Option (Passage tag)) :
    (s.reading d).lines n (p.elim [] Passage.print) = s.reading (p.elim d d.tell) := by
  cases p with
  | none => rfl
  | some p => exact lines_passage s d n htag p

/-- The comment block leaves its text waiting for a declaration. -/
theorem lines_comment {s : State} (hidle : Idle s) (n : Nat) (h : Head) :
    s.lines n h.comment = s.waiting (h.doc (n + 1)) := by
  rw [Head.comment, lines_append, lines_append, lines_append, lines_open hidle,
    lines_optional s _ _ (by simp), lines_optional s _ _ (by simp), lines, lines]
  exact line_close hidle _ (doc_keyword h (n + 1))

/-- **A declaration is read as it was printed**: it is one entry, bound on the last line. -/
theorem lines_head {s : State} (hidle : Idle s) (n : Nat) (h : Head)
    (hrem : Line.afterRem? h.signature = none) (hne : h.signature ≠ []) :
    s.lines n h.print =
      (s.gains [h.entry s.file (n + h.print.length - 1) s.aggregates.head?.join]).structureLine
        (n + h.print.length - 1) h.signature (some s.result.docs.length) := by
  have hlast : n + (h.comment ++ h.blanks).length = n + h.print.length - 1 := by
    simp only [Head.print, List.length_append, List.length_singleton]
    omega
  have hwaiting : s.lines n (h.comment ++ h.blanks) = s.waiting (h.doc (n + 1)) := by
    rw [lines_append, lines_comment hidle]
    exact lines_blanks hidle _ _ fun l hl => (h.blank l hl).2
  rw [← hlast, Head.print, lines_append, hwaiting, lines, lines, line_signature hidle _ _ h hrem hne,
    bind_doc]

/-! ## The whole forest -/

theorem lines_leaf {s : State} (hidle : Idle s) (n : Nat) (node : Leaf) :
    s.lines n node.print =
      s.gains [node.entry s.file (n + node.print.length - 1) s.aggregates.head?.join] := by
  obtain ⟨hrem, hopens, hcloses⟩ := Line.not_structure_of_leaf node.starts
  have hne : node.signature ≠ [] := by
    intro hnil
    have hstarts := node.starts
    rw [hnil] at hstarts
    revert hstarts
    decide
  rw [lines_head hidle n node.toHead hrem hne]
  exact structureLine_plain (hidle.gains _) _ hopens hcloses _

/-- The state inside an aggregate. -/
def inside (s : State) (place : Nat) : State :=
  { s with aggregates := some place :: s.aggregates }

@[simp] theorem inside_file (s : State) (place : Nat) : (s.inside place).file = s.file := rfl

@[simp] theorem inside_aggregates (s : State) (place : Nat) :
    (s.inside place).aggregates = some place :: s.aggregates := rfl

@[simp] theorem inside_result (s : State) (place : Nat) : (s.inside place).result = s.result := rfl

theorem inside_gains (s : State) (place : Nat) (docs : List DocEntry) :
    (s.inside place).gains docs = (s.gains docs).inside place := rfl

theorem Idle.inside {s : State} (h : Idle s) (place : Nat) : Idle (s.inside place) :=
  ⟨h.blocks, h.awaiting, h.openDoc, h.pending, h.unfinished, h.isModuleEntry, h.followImports⟩

theorem word_mem_aggregates {kind : Kind} (h : kind.isAggregate = true) :
    kind.word ∈ Line.aggregates := by
  revert h
  cases kind <;> decide

theorem lines_inner {s : State} (hidle : Idle s) (n : Nat) (node : Inner) :
    s.lines n node.print =
      (s.gains [node.entry s.file (n + node.print.length - 1) s.aggregates.head?.join]).inside
        s.result.docs.length := by
  have hword := word_mem_aggregates node.isAggregate
  have hne : node.signature ≠ [] := by
    intro hnil
    have hopens := Line.opensAggregate_of_opens hword node.opens
    rw [hnil] at hopens
    revert hopens
    decide
  rw [lines_head hidle n node.toHead (Line.afterRem?_of_opens hword node.opens) hne]
  simp only [structureLine, Line.opensAggregate_of_opens hword node.opens, ↓reduceIte]
  rfl

/-- The line that ends an aggregate leads out of it. -/
theorem line_ending {s : State} (hidle : Idle s) (place n : Nat) (node : Inner) :
    (s.inside place).line n node.ending = s := by
  have hending : Line.afterRem? node.ending = none ∧ IsTrimmed node.ending ∧ node.ending ≠ [] ∧
      Line.stripComment node.ending = node.ending ∧ Line.opensAggregate node.ending = false ∧
      Line.closesAggregate node.ending = true := by
    have haggregate := node.isAggregate
    unfold Inner.ending
    revert haggregate
    cases node.kind <;> decide
  obtain ⟨hrem, htrimmed, hne, hcode, hopens, hcloses⟩ := hending
  simp only [line, inside, hidle.blocks, hrem, htrimmed.1, htrimmed.2, hcode,
    List.isEmpty_eq_false_iff.2 hne, codeLine, hidle.unfinished, hidle.pending, structureLine, hopens,
    hcloses, Bool.false_eq_true, ↓reduceIte]
  rw [← hidle.blocks, ← hidle.unfinished, ← hidle.pending]

/-- **A forest is read as it was printed**: an idle scan gains its entries, and is idle again. -/
theorem lines_forest (F : Forest) {s : State} (hidle : Idle s) (n : Nat) :
    s.lines n F.print =
      s.gains (F.entries s.file n s.result.docs.length s.aggregates.head?.join) := by
  induction F generalizing s n with
  | done gap => rw [Forest.print, lines_filler hidle n gap.filler, Forest.entries, gains_nil]
  | leaf gap node rest ih =>
    rw [Forest.print, lines_append, lines_append, lines_filler hidle n gap.filler, lines_leaf hidle,
      ih (hidle.gains _), gains_gains]
    simp [Forest.entries, Nat.add_assoc]
  | inner gap node members rest ihm ihr =>
    -- the members are read inside the aggregate, and the rest outside it again
    rw [Forest.print, lines_append, lines_append, lines_append, lines_filler hidle n gap.filler,
      lines_inner hidle, ihm ((hidle.gains _).inside _), inside_gains, gains_gains, lines,
      line_ending (hidle.gains _), ihr (hidle.gains _), gains_gains]
    simp [Forest.entries, Forest.length_entries, Nat.add_assoc]

end State

/-! ## Scans of printed forests -/

theorem isLine_passage {tag : Tag} (p : Passage tag) : ∀ l ∈ p.print, IsLine l := by
  have htrimmed := p.trimmed
  have hone := p.oneLine
  simp only [List.forall_mem_cons] at htrimmed hone
  simp only [Passage.print, List.forall_mem_cons]
  refine ⟨Text.isLine_of_isTrimmed (isTrimmed_tagLine tag htrimmed.1 p.starts) ?_, ?_⟩
  · have hword : '\n' ∉ tag.word.toList := by cases tag <;> decide
    simp [hword, hone.1]
  · exact fun l hl => Text.isLine_of_isTrimmed (htrimmed.2 l hl) (hone.2 l hl)

theorem isLine_head (h : Head) : ∀ l ∈ h.print, IsLine l := by
  have hoptional : ∀ {tag : Tag} (p : Option (Passage tag)), ∀ l ∈ p.elim [] Passage.print, IsLine l := by
    intro tag p
    cases p with
    | none => simp
    | some p => exact isLine_passage p
  intro l hl
  simp only [Head.print, Head.comment, List.mem_cons, List.mem_append, List.not_mem_nil, or_false] at hl
  rcases hl with (((((rfl | hl) | hl) | hl) | rfl) | hl) | rfl
  · decide
  · exact isLine_passage h.info l hl
  · exact hoptional h.returns l hl
  · exact hoptional h.about l hl
  · decide
  · exact (h.blank l hl).1
  · exact Text.isLine_of_isTrimmed h.trimmed h.oneLine

theorem isLine_ending (node : Inner) : IsLine node.ending := by
  have haggregate := node.isAggregate
  unfold Inner.ending
  revert haggregate
  cases node.kind <;> decide

theorem isLine_forest (F : Forest) : ∀ l ∈ F.print, IsLine l := by
  induction F with
  | done gap => exact gap.oneLine
  | leaf gap node rest ih =>
    intro l hl
    simp only [Forest.print, List.mem_append] at hl
    rcases hl with (hl | hl) | hl
    · exact gap.oneLine l hl
    · exact isLine_head node.toHead l hl
    · exact ih l hl
  | inner gap node members rest ihm ihr =>
    intro l hl
    simp only [Forest.print, List.mem_append, List.mem_cons] at hl
    rcases hl with ((hl | hl) | hl) | rfl | hl
    · exact gap.oneLine l hl
    · exact isLine_head node.toHead l hl
    · exact ihm l hl
    · exact isLine_ending node
    · exact ihr l hl

/-- **Scanning a printed forest** finds an entry for every declaration, each before its members, with
its texts, its signature, the line and the file that this stands in and the place of its aggregate,
and finds nothing else. -/
theorem scan_forest (F : Forest) (file : Path) :
    (scan F.text file {}).analysis = { docs := F.entries file 1 0 none } ∧
      (scan F.text file {}).targets = [] ∧
      (scan F.text file {}).log = (F.entries file 1 0 none).flatMap State.complaints ∧
      (F.entries file 1 0 none).length = F.count := by
  have hidle : State.Idle { file, options := {} } := ⟨rfl, rfl, rfl, rfl, rfl, rfl, rfl⟩
  have hlast : lastState F.text file {} =
      State.gains { file, options := {} } (F.entries file 1 0 none) := by
    rw [lastState, Forest.text, String.toList_ofList, Text.lines_unlines (isLine_forest F)]
    exact State.lines_forest F hidle 1
  have hfinish : (lastState F.text file {}).finish =
      State.gains { file, options := {} } (F.entries file 1 0 none) := by
    rw [hlast]
    rfl
  rw [scan_eq, hfinish]
  exact ⟨rfl, rfl, rfl, F.length_entries file 1 0 none⟩

/-- A type with a method. -/
def shapes : Forest :=
  .inner { lines := ["Strict".toList, [], "' Shapes".toList] }
    { info := { first := "A shape".toList }, signature := "Type TShape".toList, kind := .type }
    (.leaf {}
      { info := { first := "Its area".toList, more := [[], "in pixels".toList] }
        returns := some { first := "0: empty".toList }
        blanks := [[]]
        signature := "Method Area:Int()".toList }
      (.done { lines := ["End Method".toList] }))
    (.done {})

example :
    shapes.text = "Strict\n\n' Shapes\nRem\nbbdoc: A shape\nEnd Rem\nType TShape\n"
      ++ "Rem\nbbdoc: Its area\n\nin pixels\nreturns: 0: empty\nEnd Rem\n\nMethod Area:Int()\n"
      ++ "End Method\nEnd Type\n" ∧
    (shapes.entries ⟨"shape.bmx"⟩ 1 0 none).map (fun e =>
        (e.info, e.returns, e.declaration.name, e.declaration.line, e.declaration.parent)) =
      [("A shape", none, "TShape", 7, none),
        ("Its area\n\nin pixels", some "0: empty", "Area", 15, some 0)] := by
  decide +kernel

end BlitzDoc.Source
