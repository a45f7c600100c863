import BlitzDoc.Markup.Markdown
import BlitzDoc.Proofs.Markup.Rows
import BlitzDoc.Proofs.Markup.Strip
import BlitzDoc.Proofs.Text.Escapes

/-!
# Pipe tables

In markdown a table is a line for each row, with pipes around the cells, and a rule below the first one.
It keeps this shape as long as no cell brings a pipe or a line feed of its own. The text of a cell has
neither (`unmarked_of_mem_rawCells`), so there is no table inside of a cell, and what a renderer is handed
has neither as well (`unmarked_meaning`). Headings and blocks of code are the ones that are shown on lines
of their own all the same (`construct_of_isBlock`). The main statement is `isPipeTable_iff_no_block`: these
tear a table apart, and nothing else does.
-/

namespace BlitzDoc.Markup

/-! ## Texts without pipes and line breaks -/

/-- The text has no pipe and no line break in it. -/
def Unmarked (s : String) : Prop :=
  ∀ c ∈ s.toList, isTableMark c = false

instance : DecidablePred Unmarked :=
  fun s => decidable_of_iff (s.toList.any isTableMark = false) (by simp [Unmarked])

theorem unmarked_empty : Unmarked "" := by
  decide

theorem Unmarked.pipe_not_mem {s : String} (h : Unmarked s) : '|' ∉ s.toList :=
  fun hmem => absurd (h _ hmem) (by decide)

theorem Unmarked.feed_not_mem {s : String} (h : Unmarked s) : '\n' ∉ s.toList :=
  fun hmem => absurd (h _ hmem) (by decide)

theorem Unmarked.append {s t : String} (hs : Unmarked s) (ht : Unmarked t) : Unmarked (s ++ t) := by
  intro c hc
  rw [String.toList_append] at hc
  rcases List.mem_append.1 hc with hc | hc
  · exact hs c hc
  · exact ht c hc

theorem Unmarked.push {s : String} (h : Unmarked s) {c : Char} (hc : isTableMark c = false) :
    Unmarked (s.push c) := by
  have hone : Unmarked (String.singleton c) := by simpa [Unmarked] using hc
  rw [String.push_eq_append]
  exact h.append hone

theorem Unmarked.subset {s t : String} (h : Unmarked s) (hsub : t.toList ⊆ s.toList) : Unmarked t :=
  fun c hc => h c (hsub hc)

theorem Unmarked.trim {s : String} (h : Unmarked s) : Unmarked (Text.trim s) :=
  h.subset fun _ => Text.mem_of_mem_trim

/-- Every text inside of the piece is unmarked. -/
def Piece.Unmarked : Piece → Prop
  | .char c => isTableMark c = false
  | .word _ text | .angle text => Markup.Unmarked text
  | .bracket raw data => Markup.Unmarked raw ∧ ∀ d, data = some d → Markup.Unmarked d

/-- What was read of a piece is unmarked. -/
def State.Unmarked : State → Prop
  | .text => True
  | .word _ buf | .bracket _ buf | .closed buf | .angle buf => Markup.Unmarked buf
  | .data tag _ buf => Markup.Unmarked tag ∧ Markup.Unmarked buf

theorem unmarked_take {s : State} (h : s.Unmarked) {c : Char} (hc : isTableMark c = false) :
    (s.take c).state.Unmarked ∧ ∀ p ∈ (s.take c).pieces, p.Unmarked := by
  cases s with
  | text =>
    simp only [State.take]
    split_ifs <;> simp [State.Unmarked, Piece.Unmarked, unmarked_empty, hc]
  | word kind buf =>
    simp only [State.Unmarked] at h
    simp only [State.take]
    split_ifs
    · exact ⟨trivial, by simpa [Piece.Unmarked] using h⟩
    · exact ⟨h.push hc, by simp⟩
  | bracket depth buf =>
    simp only [State.Unmarked] at h
    simp only [State.take]
    split_ifs
    · cases depth with
      | zero => exact ⟨h, by simp⟩
      | succ depth => exact ⟨h.push hc, by simp⟩
    · exact ⟨h.push hc, by simp⟩
    · exact ⟨h.push hc, by simp⟩
  | closed tag =>
    simp only [State.Unmarked] at h
    simp only [State.take]
    split_ifs
    · exact ⟨⟨h, unmarked_empty⟩, by simp⟩
    · exact ⟨trivial, by simpa [Piece.Unmarked] using h⟩
  | data tag depth buf =>
    obtain ⟨htag, hbuf⟩ := h
    simp only [State.take]
    split_ifs
    · cases depth with
      | zero => exact ⟨trivial, by simpa [Piece.Unmarked] using ⟨htag, hbuf⟩⟩
      | succ depth => exact ⟨⟨htag, hbuf.push hc⟩, by simp⟩
    · exact ⟨⟨htag, hbuf.push hc⟩, by simp⟩
    · exact ⟨⟨htag, hbuf.push hc⟩, by simp⟩
  | angle buf =>
    simp only [State.Unmarked] at h
    simp only [State.take]
    split_ifs
    · exact ⟨trivial, by simp [Piece.Unmarked, isTableMark, isBreak]⟩
    · exact ⟨trivial, by simpa [Piece.Unmarked] using h⟩
    · exact ⟨h.push hc, by simp⟩

theorem unmarked_push {s : State} (h : s.Unmarked) {c : Char} (hc : isTableMark c = false) :
    (s.push c).1.Unmarked ∧ ∀ p ∈ (s.push c).2, p.Unmarked := by
  obtain ⟨hstate, hpieces⟩ := unmarked_take h hc
  unfold State.push
  by_cases hback : (s.take c).handedBack = true
  · obtain ⟨hagain, hmore⟩ := unmarked_take hstate hc
    simp only [hback, if_true, List.forall_mem_append]
    exact ⟨hagain, hpieces, hmore⟩
  · simp only [hback]
    exact ⟨hstate, hpieces⟩

theorem unmarked_flush {s : State} (h : s.Unmarked) : ∀ p ∈ s.flush, p.Unmarked := by
  cases s with
  | text => simp [State.flush]
  | word kind buf => simpa [State.flush, State.Unmarked, Piece.Unmarked] using h
  | bracket depth buf => simpa [State.flush, State.Unmarked, Piece.Unmarked] using h
  | closed tag => simpa [State.flush, State.Unmarked, Piece.Unmarked] using h
  | data tag depth buf => simpa [State.flush, State.Unmarked, Piece.Unmarked] using h
  | angle buf =>
    simp only [State.flush]
    split
    · simp [Piece.Unmarked, isTableMark, isBreak]
    · simpa [State.Unmarked, Piece.Unmarked] using h

/-- **The pieces of an unmarked text are unmarked.** -/
theorem unmarked_of_mem_piecesFrom {cs : List Char} (hcs : ∀ c ∈ cs, isTableMark c = false) {s : State}
    (h : s.Unmarked) {p : Piece} (hp : p ∈ piecesFrom s cs) : p.Unmarked := by
  induction cs generalizing s with
  | nil => exact unmarked_flush h p hp
  | cons c cs ih =>
    simp only [List.forall_mem_cons] at hcs
    obtain ⟨hstate, hpieces⟩ := unmarked_push h hcs.1
    rcases List.mem_append.1 hp with hp | hp
    · exact hpieces p hp
    · exact ih hcs.2 hstate hp

theorem unmarked_of_mem_pieces {strip : Bool} {text : String} (h : Unmarked text) {p : Piece}
    (hp : p ∈ pieces strip text) : p.Unmarked := by
  refine unmarked_of_mem_piecesFrom (fun c hc => ?_) (s := .text) trivial hp
  split at hc
  · exact h c (List.mem_of_mem_filter hc)
  · exact h c hc

/-! ## What unmarked pieces stand for -/

/-- The texts of the construct are unmarked, and it is no table. -/
inductive Construct.Unmarked : Construct → Prop
  | reference {text : String} : Markup.Unmarked text → Unmarked (.reference text)
  | highlight {text : String} : Markup.Unmarked text → Unmarked (.highlight text)
  | heading {level : Nat} {text : String} : Markup.Unmarked text → Unmarked (.heading level text)
  | italic {text : String} : Markup.Unmarked text → Unmarked (.italic text)
  | code {text : String} : Markup.Unmarked text → Unmarked (.code text)
  | codeBlock {text : String} : Markup.Unmarked text → Unmarked (.codeBlock text)
  | html {name : String} {data : Option String} : Markup.Unmarked name →
      (∀ d, data = some d → Markup.Unmarked d) → Unmarked (.html name data)

/-- What a piece stands for is an unmarked text or construct. -/
inductive Meaning.Unmarked : Meaning → Prop
  | literal {text : String} : Markup.Unmarked text → Unmarked (.literal text)
  | construct {k : Construct} : k.Unmarked → Unmarked (.construct k)

theorem unmarked_promote {tag data : String} (htag : Unmarked tag) (hdata : Unmarked data) :
    (promote tag data).Unmarked := by
  unfold promote
  dsimp only
  split
  · exact .heading hdata
  · split_ifs
    · exact .italic hdata
    · exact .code hdata
    · exact .codeBlock hdata
    · exact .html htag fun d hd => Option.some.inj hd ▸ hdata

theorem unmarked_angleTag {inner : String} (h : Unmarked inner) : (angleTag inner).Unmarked := by
  unfold angleTag
  rw [Text.splitOnce?_eq]
  cases hbehind : inner.toList.dropWhile fun c => !Text.isBlank c with
  | nil => exact .html h (by simp)
  | cons blank rest =>
    have hrest : rest ⊆ inner.toList := by
      intro c hc
      exact (List.dropWhile_suffix _).subset (hbehind ▸ List.mem_cons_of_mem _ hc)
    refine .html (h.subset ?_) fun d hd => ?_
    · rw [String.toList_ofList]
      exact (List.takeWhile_prefix _).subset
    · unfold Text.nonEmpty? at hd
      split at hd
      · cases hd
      · rw [← Option.some.inj hd]
        exact Unmarked.trim (h.subset (by simpa using hrest))

theorem unmarked_emptyBrackets {data : Option String} (h : ∀ d, data = some d → Unmarked d) :
    Unmarked (emptyBrackets data) := by
  have hopen : Unmarked "[](" := by decide
  cases data with
  | none => exact (by decide : Unmarked "[]")
  | some d => exact (hopen.append (h d rfl)).append (by decide)

/-- **A piece without table marks is no table**, and what it stands for has none either. -/
theorem unmarked_meaning {p : Piece} (h : p.Unmarked) : p.meaning.Unmarked := by
  cases p with
  | char c => exact .literal (by simpa [Unmarked, Piece.Unmarked] using h)
  | word kind text =>
    simp only [Piece.meaning]
    split
    · exact .literal (by cases kind <;> decide)
    · cases kind with
      | highlight => exact .construct (.highlight h)
      | reference => exact .construct (.reference h)
  | bracket raw data =>
    obtain ⟨hraw, hdata⟩ := h
    have hnot : raw.toList.any isTableMark = false := by simpa [Unmarked] using hraw
    simp only [Piece.meaning, hnot, Bool.false_eq_true, if_false]
    split_ifs
    · exact .literal (unmarked_emptyBrackets hdata)
    · exact .literal unmarked_empty
    · cases data with
      | some d => exact .construct (unmarked_promote hraw.trim (hdata d rfl))
      | none => exact .construct (.html hraw.trim (by simp))
  | angle raw =>
    simp only [Piece.meaning]
    split
    · exact .literal unmarked_empty
    · exact .construct (unmarked_angleTag (Unmarked.trim h))

/-! ## Unmarked text as markdown -/

/-- The construct is shown on lines of its own. -/
def Construct.isBlock : Construct → Bool
  | .heading _ _ | .codeBlock _ | .table _ => true
  | _ => false

def Meaning.isBlock : Meaning → Bool
  | .construct k => k.isBlock
  | _ => false

theorem unmarked_slug (heading : String) : Unmarked (Anchor.slug heading) := by
  have hmark : ∀ c, Anchor.isKept c = true → isTableMark c = false := by
    intro c hc
    have hpipe : Anchor.isKept '|' = false := by decide
    have hfeed : Anchor.isKept '\n' = false := by decide
    have hreturn : Anchor.isKept '\r' = false := by decide
    rw [Bool.eq_false_iff]
    intro hmark
    simp only [isTableMark, isBreak, Bool.or_eq_true, beq_iff_eq] at hmark
    rcases hmark with rfl | rfl | rfl
    · exact absurd (hc.symm.trans hpipe) (by decide)
    · exact absurd (hc.symm.trans hfeed) (by decide)
    · exact absurd (hc.symm.trans hreturn) (by decide)
  intro c hc
  simp only [Anchor.slug, String.toList_ofList] at hc
  obtain ⟨d, hd, rfl⟩ := List.mem_map.1 hc
  split
  · decide
  · exact hmark d (by simpa using (List.mem_filter.1 hd).2)

theorem unmarked_link {heading : String} (h : Unmarked heading) : Unmarked (Anchor.link heading) := by
  have hopen : Unmarked "[" := by decide
  exact (((hopen.append h).append (by decide)).append (unmarked_slug heading)).append (by decide)

namespace Markdown

/-- A construct that is no block gets no pipe and no line break. -/
theorem unmarked_construct {k : Construct} (h : k.Unmarked) (hblock : k.isBlock = false) :
    Unmarked (construct k) := by
  cases h with
  | reference htext => exact unmarked_link htext
  | highlight htext => exact ((by decide : Unmarked "**").append htext).append (by decide)
  | heading htext => cases hblock
  | italic htext => exact ((by decide : Unmarked "*").append htext).append (by decide)
  | code htext => exact ((by decide : Unmarked "`").append htext).append (by decide)
  | codeBlock htext => cases hblock
  | @html name data hname hdata =>
    have hopen : Unmarked "[" := by decide
    have hangle : Unmarked "<" := by decide
    cases data with
    | none => exact (hangle.append hname).append (by decide)
    | some d =>
      have hd := hdata d rfl
      have hshown : construct (.html name (some d)) =
          if isLink d then "[" ++ name ++ "](" ++ d ++ ")" else "<" ++ name ++ " " ++ d ++ ">" := rfl
      rw [hshown]
      split
      · exact (((hopen.append hname).append (by decide)).append hd).append (by decide)
      · exact (((hangle.append hname).append (by decide)).append hd).append (by decide)

theorem trimNewlines_subset (s : String) : (trimNewlines s).toList ⊆ s.toList := by
  intro c hc
  simp only [trimNewlines, String.toList_ofList, List.mem_reverse] at hc
  have hend := (List.dropWhile_suffix _).subset hc
  exact (List.dropWhile_suffix _).subset (List.mem_reverse.1 hend)

/-- A block gets no pipe either, but it starts with a line feed. -/
theorem construct_of_isBlock {k : Construct} (h : k.Unmarked) (hblock : k.isBlock = true) :
    '|' ∉ (construct k).toList ∧ '\n' ∈ (construct k).toList := by
  cases h with
  | @heading level text htext =>
    have hshown : construct (.heading level text) =
        "\n" ++ String.ofList (List.replicate level '#') ++ " " ++ text ++ "\n" := rfl
    simp [hshown, htext.pipe_not_mem, List.mem_replicate]
  | @codeBlock text htext =>
    have hshown : construct (.codeBlock text) =
        "\n```blitzmax\n" ++ trimNewlines text ++ "\n```\n" := rfl
    simp [hshown, (htext.subset (trimNewlines_subset text)).pipe_not_mem]
  | reference | highlight | italic | code | html => cases hblock

end Markdown

/-- A construct of the text is shown on lines of its own. -/
def HasBlock (strip : Bool) (text : String) : Prop :=
  ∃ p ∈ pieces strip text, p.meaning.isBlock = true

instance (strip : Bool) (text : String) : Decidable (HasBlock strip text) :=
  inferInstanceAs (Decidable (∃ p ∈ pieces strip text, p.meaning.isBlock = true))

theorem mem_formatPure {render : Construct → String} {strip : Bool} {text : String} {c : Char} :
    c ∈ (formatPure render strip text).toList ↔
      ∃ p ∈ pieces strip text,
        c ∈ (Id.run (renderPiece (fun k => pure (render k)) strip p)).toList := by
  rw [formatPure, format_eq]
  simp

theorem renderPiece_of_unmarked {p : Piece} (h : p.Unmarked) (strip : Bool) :
    let shown := (Id.run (renderPiece (fun k => pure (Markdown.construct k)) strip p)).toList
    '|' ∉ shown ∧ ('\n' ∈ shown ↔ p.meaning.isBlock = true) := by
  have hmeaning := unmarked_meaning h
  unfold renderPiece
  cases hp : p.meaning with
  | literal text =>
    rw [hp] at hmeaning
    cases hmeaning with
    | literal htext => simp [Meaning.isBlock, htext.pipe_not_mem, htext.feed_not_mem]
  | construct k =>
    rw [hp] at hmeaning
    simp only [Id.run_pure, Meaning.isBlock]
    cases hmeaning with
    | construct hk =>
      cases hblock : k.isBlock with
      | true =>
        obtain ⟨hpipe, hfeed⟩ := Markdown.construct_of_isBlock hk hblock
        simp [hpipe, hfeed]
      | false =>
        have hplain := Markdown.unmarked_construct hk hblock
        simp [hplain.pipe_not_mem, hplain.feed_not_mem]
  | table raw =>
    rw [hp] at hmeaning
    cases hmeaning

/-- **Unmarked text as markdown** has no pipe, and a line feed only with a block. -/
theorem formatPure_of_unmarked {text : String} (h : Unmarked text) (strip : Bool) :
    '|' ∉ (formatPure Markdown.construct strip text).toList ∧
      ('\n' ∈ (formatPure Markdown.construct strip text).toList ↔ HasBlock strip text) := by
  have hpieces := fun p (hp : p ∈ pieces strip text) =>
    renderPiece_of_unmarked (unmarked_of_mem_pieces h hp) strip
  refine ⟨fun hmem => ?_, ?_⟩
  · obtain ⟨p, hp, hmem⟩ := mem_formatPure.1 hmem
    exact (hpieces p hp).1 hmem
  · rw [mem_formatPure]
    exact exists_congr fun p => and_congr_right fun hp => (hpieces p hp).2

/-! ## Tables of unmarked cells -/

/-- The table that a renderer without state makes of a text. -/
def parseTablePure (render : Construct → String) (strip : Bool) (raw : String) : Table :=
  Id.run (parseTable (fun k => pure (render k)) strip raw)

theorem unmarked_of_mem_rawCells {raw : String} {cell : Cell} (h : cell ∈ rawCells raw) :
    Unmarked cell.text := by
  have hbreak := isBreak_of_mem_rawCells h
  rw [rawCells_eq] at h
  obtain ⟨texts, hrow, htext⟩ := mem_cellsOf.1 h
  obtain ⟨line, -, rfl⟩ := List.mem_map.1 (List.mem_of_getElem? hrow)
  obtain ⟨piece, hpiece, hcell⟩ := List.mem_map.1 (List.mem_of_getElem? htext)
  have hpipe : '|' ∉ cell.text.toList := by
    intro hmem
    rw [← hcell, cellText] at hmem
    have hmem := Text.mem_of_mem_trim hmem
    rw [String.toList_ofList] at hmem
    exact Text.not_mem_of_mem_splitOn hpiece ((List.dropWhile_suffix _).subset hmem)
  intro c hc
  have hne : c ≠ '|' := fun heq => hpipe (heq ▸ hc)
  simp [isTableMark, hne, hbreak c hc]

section
variable (render : Construct → String) (strip : Bool) (raw : String)

theorem parseTablePure_eq :
    parseTablePure render strip raw =
      Table.ofRows (maxLength (tableRows raw)) (tableRows raw).length
        ((tableRows raw).map fun texts => texts.map (formatPure render strip)) := by
  have hrows : ∀ texts ∈ (tableRows raw).map fun texts => texts.map (formatPure render strip),
      texts ≠ [] := by
    rintro _ hmem rfl
    obtain ⟨texts, htexts, hnil⟩ := List.mem_map.1 hmem
    exact ne_nil_of_mem_tableRows htexts (List.map_eq_nil_iff.1 hnil)
  have hcells := ofCells_cellsOf hrows
  unfold parseTablePure parseTable
  simp only [rawCells_eq, mapM_cellsOf]
  have hlengths : maxLength ((tableRows raw).map fun texts => texts.map (formatPure render strip)) =
      maxLength (tableRows raw) := by
    simp [maxLength, Function.comp_def]
  rw [hlengths, List.length_map] at hcells
  rw [← hcells]
  simp only [bind_pure_comp, Functor.map_map, Id.run_map, List.idRun_mapM]
  rfl

theorem height_pos (h : 0 < (parseTablePure render strip raw).width) :
    0 < (parseTablePure render strip raw).height := by
  rw [parseTablePure_eq] at h ⊢
  simp only [Table.ofRows] at h ⊢
  rw [List.length_pos_iff]
  intro hnil
  simp [hnil, maxLength] at h

/-- A cell is the piece of a row, formatted, and empty where a row has none. -/
theorem cell_parseTablePure (column row : Nat) :
    (parseTablePure render strip raw).cell column row =
      ((((tableRows raw)[row]?).bind (·[column]?)).map (formatPure render strip)).getD "" := by
  rw [parseTablePure_eq]
  by_cases hrow : row < (tableRows raw).length
  · have htexts := length_le_maxLength (List.getElem_mem hrow)
    by_cases hcolumn : column < maxLength (tableRows raw)
    · simp [Table.cell, Table.ofRows, hrow, hcolumn]
    · have hnone : column ≥ (tableRows raw)[row].length := by omega
      simp [Table.cell, Table.ofRows, hrow, hcolumn, hnone]
  · by_cases hcolumn : column < maxLength (tableRows raw) <;>
      simp [Table.cell, Table.ofRows, hrow, hcolumn]

variable {raw}

/-- A cell that is read is formatted in its place. -/
theorem cell_of_mem_rawCells {cell : Cell} (h : cell ∈ rawCells raw) :
    cell.column < (parseTablePure render strip raw).width ∧
      cell.row < (parseTablePure render strip raw).height ∧
      (parseTablePure render strip raw).cell cell.column cell.row =
        formatPure render strip cell.text := by
  rw [rawCells_eq] at h
  obtain ⟨texts, hrow, htext⟩ := mem_cellsOf.1 h
  obtain ⟨hcolumn, hinside⟩ := cell_lt h
  refine ⟨?_, ?_, ?_⟩
  · rwa [parseTablePure_eq]
  · rwa [parseTablePure_eq]
  · rw [cell_parseTablePure, hrow, Option.bind_some, htext]
    rfl

/-- Other places of the table are empty. -/
theorem cell_cases (column row : Nat) :
    (parseTablePure render strip raw).cell column row = "" ∨
      ∃ cell ∈ rawCells raw, (parseTablePure render strip raw).cell column row =
        formatPure render strip cell.text := by
  rw [cell_parseTablePure]
  cases hread : ((tableRows raw)[row]?).bind (·[column]?) with
  | none => exact .inl rfl
  | some text =>
    obtain ⟨texts, hrow, htext⟩ := Option.bind_eq_some_iff.1 hread
    have hcell : { column, row, text : Cell } ∈ rawCells raw := by
      rw [rawCells_eq]
      exact mem_cellsOf.2 ⟨texts, hrow, htext⟩
    exact .inr ⟨_, hcell, rfl⟩

end

/-! ## Rows between pipes -/

/-- The line is a row of a pipe table: it starts and ends with a pipe, and there is one bare pipe more
than there are cells. -/
structure IsPipeRow (width : Nat) (line : List Char) : Prop where
  oneLine : '\n' ∉ line
  first : line.head? = some '|'
  last : line.getLast? = some '|'
  pipes : (Text.bare line).count '|' = width + 1

/-- The cells with pipes around them. -/
def pipeRow (cells : List (List Char)) : List Char :=
  '|' :: cells.flatMap fun cell => ' ' :: (cell ++ [' ', '|'])

theorem pipeRow_cons (cell : List Char) (cells : List (List Char)) :
    pipeRow (cell :: cells) = '|' :: ' ' :: (cell ++ ' ' :: pipeRow cells) := by
  simp [pipeRow]

/-- A cell without pipes has none that is bare, and the blank behind it keeps a backslash at its end from
the pipe. -/
theorem count_bare_append {cell : List Char} (h : '|' ∉ cell) (rest : List Char) :
    (Text.bare (cell ++ ' ' :: rest)).count '|' = (Text.bare rest).count '|' := by
  fun_induction Text.bare cell with
  | case1 c cs ih =>
    simp only [List.mem_cons, not_or] at h
    rw [List.cons_append, List.cons_append, Text.bare]
    exact ih h.2.2
  | case2 c cs hescape ih =>
    simp only [List.mem_cons, not_or] at h
    have hpipe : c ≠ '|' := fun heq => h.1 heq.symm
    by_cases hc : c = '\\'
    · cases cs with
      | nil => rw [hc, List.singleton_append, Text.bare]
      | cons d cs => exact absurd rfl (hescape d cs hc)
    · rw [List.cons_append, Text.bare_cons hc, List.count_cons_of_ne hpipe]
      exact ih h.2
  | case3 => rw [List.nil_append, Text.bare_cons (by decide), List.count_cons_of_ne (by decide)]

theorem isPipeRow_pipeRow {cells : List (List Char)} (hpipe : ∀ cell ∈ cells, '|' ∉ cell)
    (hfeed : ∀ cell ∈ cells, '\n' ∉ cell) : IsPipeRow cells.length (pipeRow cells) := by
  induction cells with
  | nil => exact ⟨by decide, rfl, rfl, by decide⟩
  | cons cell cells ih =>
    simp only [List.forall_mem_cons] at hpipe hfeed
    obtain ⟨honeLine, -, hlast, hpipes⟩ := ih hpipe.2 hfeed.2
    rw [pipeRow_cons]
    refine ⟨?_, rfl, ?_, ?_⟩
    · simp [hfeed.1, honeLine]
    · simp [List.getLast?_cons, List.getLast?_append, hlast]
    · rw [Text.bare_cons (by decide), Text.bare_cons (by decide), List.count_cons_self,
        List.count_cons_of_ne (by decide), count_bare_append hpipe.1, hpipes, List.length_cons]

theorem pipeRow_eq_intercalate {cells : List (List Char)} (hne : cells ≠ []) :
    pipeRow cells = ['|', ' '] ++ [' ', '|', ' '].intercalate cells ++ [' ', '|'] := by
  induction cells with
  | nil => exact absurd rfl hne
  | cons cell cells ih =>
    rw [pipeRow_cons]
    cases cells with
    | nil => simp [pipeRow]
    | cons next cells =>
      rw [ih (by simp), List.intercalate_cons_cons]
      simp

theorem mem_pipeRow {cells : List (List Char)} {cell : List Char} (hcell : cell ∈ cells) {c : Char}
    (hc : c ∈ cell) : c ∈ pipeRow cells := by
  refine List.mem_cons_of_mem _ (List.mem_flatMap.2 ⟨cell, hcell, ?_⟩)
  simp [hc]

/-! ## Lines one below the other -/

/-- The rule below the header. -/
def rule (width : Nat) : List Char :=
  pipeRow (List.replicate width "---".toList)

/-- A pipe table: an empty line, a header, a rule and the other rows, a line each. -/
def IsPipeTable (width height : Nat) (s : List Char) : Prop :=
  ∃ (header : List Char) (rows : List (List Char)), rows.length + 1 = height ∧
    s = '\n' :: (['\n'].intercalate (header :: rule width :: rows) ++ ['\n']) ∧
    ∀ line ∈ header :: rule width :: rows, IsPipeRow width line

/-- Lines hold no line feed exactly if there are no more of them than there are between the lines. -/
theorem count_intercalate_eq_iff (line : List Char) (lines : List (List Char)) :
    (['\n'].intercalate (line :: lines)).count '\n' = lines.length ↔
      ∀ l ∈ line :: lines, '\n' ∉ l := by
  have hcount : (['\n'].intercalate (line :: lines)).count '\n' =
      lines.length + ((line :: lines).map (List.count '\n')).sum := by
    induction lines generalizing line with
    | nil => simp
    | cons next lines ih =>
      rw [List.intercalate_cons_cons, List.count_append, List.count_append, ih]
      simp only [List.map_cons, List.sum_cons, List.length_cons, List.count_singleton_self]
      omega
  rw [hcount, Nat.add_eq_left, List.sum_eq_zero_iff_forall_eq_nat]
  simp only [List.forall_mem_map, List.count_eq_zero]

theorem isPipeRow_rule (width : Nat) : IsPipeRow width (rule width) := by
  have hpipe : ∀ cell ∈ List.replicate width "---".toList, '|' ∉ cell := by
    intro cell hcell
    rw [List.eq_of_mem_replicate hcell]
    decide
  have hfeed : ∀ cell ∈ List.replicate width "---".toList, '\n' ∉ cell := by
    intro cell hcell
    rw [List.eq_of_mem_replicate hcell]
    decide
  simpa [rule] using isPipeRow_pipeRow hpipe hfeed

/-- A pipe table has a line feed in front, one behind each line, and no others. -/
theorem IsPipeTable.count_eq {width height : Nat} {s : List Char} (h : IsPipeTable width height s) :
    s.count '\n' = height + 2 := by
  obtain ⟨header, rows, rfl, rfl, hlines⟩ := h
  have hcount := (count_intercalate_eq_iff _ _).2 fun line hline => (hlines line hline).oneLine
  rw [List.count_cons_self, List.count_append, hcount]
  simp

namespace Markdown

theorem escapePipes_of_not_mem {s : String} (h : '|' ∉ s.toList) : escapePipes s = s := by
  have hchar : ∀ c ∈ s.toList, (if c = '|' then ['\\', '|'] else [c]) = [c] := by
    intro c hc
    rw [if_neg fun heq : c = '|' => h (heq ▸ hc)]
  rw [escapePipes, List.flatMap_congr hchar, List.flatMap_singleton', String.ofList_toList]

/-- The rows below the rule. -/
def bodyRows (t : Table) : List (List Char) :=
  (List.range (t.height - 1)).map fun row => (tableRow t (row + 1)).toList

section
variable {t : Table} (hwidth : 0 < t.width)
include hwidth

theorem toList_tableRow (hpipe : ∀ column row, '|' ∉ (t.cell column row).toList) (row : Nat) :
    (tableRow t row).toList = pipeRow ((List.range t.width).map fun c => (t.cell c row).toList) := by
  have hne : ((List.range t.width).map fun c => (t.cell c row).toList) ≠ [] := by
    simp [Nat.ne_of_gt hwidth]
  rw [pipeRow_eq_intercalate hne, tableRow]
  simp only [escapePipes_of_not_mem (hpipe _ _), String.toList_append, String.toList_intercalate,
    List.map_map]
  rfl

theorem toList_renderTable :
    (renderTable t).toList = '\n' ::
      (['\n'].intercalate ((tableRow t 0).toList :: rule t.width :: bodyRows t) ++ ['\n']) := by
  have hrule : ("|" ++ String.join (List.replicate t.width " --- |")).toList = rule t.width := by
    simp [rule, pipeRow, List.flatMap_def]
  rw [renderTable, if_neg (Nat.ne_of_gt hwidth)]
  simp only [String.toList_append, String.toList_intercalate, List.map_cons, List.map_map, ← hrule]
  rfl

/-- **A table of cells without pipes is a pipe table** exactly if no cell has a line feed. -/
theorem isPipeTable_renderTable_iff (hheight : 0 < t.height)
    (hpipe : ∀ column row, '|' ∉ (t.cell column row).toList) :
    IsPipeTable t.width t.height (renderTable t).toList ↔
      ∀ column < t.width, ∀ row < t.height, '\n' ∉ (t.cell column row).toList := by
  have hbody : (bodyRows t).length + 1 = t.height := by
    simp only [bodyRows, List.length_map, List.length_range]
    omega
  have hrender := toList_renderTable hwidth
  constructor
  · intro h column hcolumn row hrow hfeed
    have hcount := h.count_eq
    rw [hrender, List.count_cons_self, List.count_append, List.count_singleton_self] at hcount
    have hbetween : (['\n'].intercalate ((tableRow t 0).toList :: rule t.width :: bodyRows t)).count '\n' =
        (rule t.width :: bodyRows t).length := by
      rw [List.length_cons]
      omega
    have hmem : '\n' ∈ (tableRow t row).toList := by
      rw [toList_tableRow hwidth hpipe]
      exact mem_pipeRow (List.mem_map_of_mem (List.mem_range.2 hcolumn)) hfeed
    refine (count_intercalate_eq_iff _ _).1 hbetween _ ?_ hmem
    cases row with
    | zero => exact List.mem_cons_self
    | succ row =>
      have hother : (tableRow t (row + 1)).toList ∈ bodyRows t :=
        List.mem_map.2 ⟨row, List.mem_range.2 (by omega), rfl⟩
      exact List.mem_cons_of_mem _ (List.mem_cons_of_mem _ hother)
  · intro hfeed
    have hrow : ∀ row < t.height, IsPipeRow t.width (tableRow t row).toList := by
      intro row hrow
      have hpipes : ∀ cell ∈ (List.range t.width).map fun c => (t.cell c row).toList, '|' ∉ cell := by
        simpa using fun column _ => hpipe column row
      have hfeeds : ∀ cell ∈ (List.range t.width).map fun c => (t.cell c row).toList, '\n' ∉ cell := by
        simpa using fun column hcolumn => hfeed column hcolumn row hrow
      have hcells := isPipeRow_pipeRow hpipes hfeeds
      rwa [List.length_map, List.length_range, ← toList_tableRow hwidth hpipe] at hcells
    refine ⟨(tableRow t 0).toList, bodyRows t, hbody, hrender, fun line hline => ?_⟩
    rcases List.mem_cons.1 hline with rfl | hline
    · exact hrow 0 hheight
    rcases List.mem_cons.1 hline with rfl | hline
    · exact isPipeRow_rule t.width
    · obtain ⟨row, hinside, rfl⟩ := List.mem_map.1 hline
      exact hrow (row + 1) (by have := List.mem_range.1 hinside; omega)

end

/-- **A markdown table keeps its shape exactly if no cell holds a block.** The table of a text is an empty
line, the header, the rule and the other rows, each on a line of its own with one bare pipe more than the
table has columns, as long as no cell of the text holds a heading or a block of code. One that does tears
its row apart. -/
theorem isPipeTable_iff_no_block (strip : Bool) (raw : String)
    (hwidth : 0 < (parseTablePure construct strip raw).width) :
    let t := parseTablePure construct strip raw
    IsPipeTable t.width t.height (renderTable t).toList ↔
      ∀ cell ∈ rawCells raw, ¬HasBlock strip cell.text := by
  intro t
  have hcells := fun cell (hcell : cell ∈ rawCells raw) =>
    formatPure_of_unmarked (unmarked_of_mem_rawCells hcell) strip
  have hread : ∀ column row, t.cell column row = "" ∨
      ∃ cell ∈ rawCells raw, t.cell column row = formatPure construct strip cell.text :=
    cell_cases construct strip
  have hpipe : ∀ column row, '|' ∉ (t.cell column row).toList := by
    intro column row
    rcases hread column row with hempty | ⟨cell, hcell, hformat⟩
    · simp [hempty]
    · rw [hformat]
      exact (hcells cell hcell).1
  rw [isPipeTable_renderTable_iff hwidth (height_pos construct strip raw hwidth) hpipe]
  constructor
  · intro hfeed cell hcell hblock
    obtain ⟨hcolumn, hrow, hformat⟩ := cell_of_mem_rawCells construct strip hcell
    refine hfeed cell.column hcolumn cell.row hrow ?_
    rw [hformat]
    exact (hcells cell hcell).2.2 hblock
  · intro hblocks column _ row _ hfeed
    rcases hread column row with hempty | ⟨cell, hcell, hformat⟩
    · change '\n' ∈ (t.cell column row).toList at hfeed
      simp [hempty] at hfeed
    · rw [hformat] at hfeed
      exact hblocks cell hcell ((hcells cell hcell).2.1 hfeed)

/-- Words, a link, code, backslashes at the end of cells and a row that is short of cells. -/
def wordyTable : String :=
  " Key\\ | @Value\n * [code](a\\)|[x](y.html)|\n#Esc"

theorem isPipeTable_wordyTable :
    IsPipeTable 3 3 (renderTable (parseTablePure construct false wordyTable)).toList ∧
      renderTable (parseTablePure construct false wordyTable) =
        "\n| Key\\ | **Value** |  |\n| --- | --- | --- |\n" ++
          "| `a\\` | [x](y.html) |  |\n| [Esc](#esc) |  |  |\n" := by
  have hblocks : ∀ cell ∈ rawCells wordyTable, ¬HasBlock false cell.text := by decide +kernel
  have htable : parseTablePure construct false wordyTable =
      { cells := [["Key\\", "`a\\`", "[Esc](#esc)"], ["**Value**", "[x](y.html)", ""], ["", "", ""]],
        width := 3, height := 3 } := by
    rw [parseTablePure_eq]
    decide +kernel
  have hwidth : 0 < (parseTablePure construct false wordyTable).width := by
    rw [htable]
    decide
  have hshape := (isPipeTable_iff_no_block false wordyTable hwidth).2 hblocks
  rw [htable] at hshape ⊢
  exact ⟨hshape, by decide +kernel⟩

/-- **A heading tears its row apart.** -/
theorem not_isPipeTable_heading :
    (parseTablePure construct false "a|[h1](T)").width = 2 ∧
      (parseTablePure construct false "a|[h1](T)").height = 1 ∧
      ¬IsPipeTable 2 1 (renderTable (parseTablePure construct false "a|[h1](T)")).toList := by
  have htable : parseTablePure construct false "a|[h1](T)" =
      { cells := [["a"], ["\n# T\n"]], width := 2, height := 1 } := by
    rw [parseTablePure_eq]
    decide +kernel
  rw [htable]
  refine ⟨rfl, rfl, fun h => ?_⟩
  have hcount := h.count_eq
  have hfeeds : (renderTable { cells := [["a"], ["\n# T\n"]], width := 2, height := 1 }).toList.count
      '\n' = 5 := by
    decide +kernel
  omega

end Markdown

end BlitzDoc.Markup
