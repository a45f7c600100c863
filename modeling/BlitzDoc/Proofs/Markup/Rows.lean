import BlitzDoc.Markup.Format
import BlitzDoc.Proofs.Text.Lines

/-!
# Tables by lines and pipes

A table is read in one pass, with a buffer for the cell and a flag for the row. What comes out can be
said without either: the text is cut into lines, lines that show nothing are left out, and each other
line is a row that is cut at its pipes (`tableRows`). The main statement is `parseTable_eq`: the pieces
are formatted row by row from left to right, and the table has a column for every piece of the longest
row and a place in it for every row.

The pass is followed line by line. `cellsFrom_line` says what a line leaves behind: the cells in front
of its last pipe, and a state that holds the last cell. A line that opens no row leaves nothing but
blanks in the buffer, and these are trimmed away with the next cell (`cellsFrom_lines`).
-/

namespace BlitzDoc.Markup

/-! ## Rows of a text -/

/-- The lines of a table. A line ends at a line feed, at a carriage return, or at the two together. -/
def tableLines : List Char → List (List Char)
  | [] => [[]]
  | '\r' :: '\n' :: cs => [] :: tableLines cs
  | c :: cs => if isBreak c then [] :: tableLines cs else (tableLines cs).modifyHead (c :: ·)

/-- The line is a row: it has a pipe, or something behind its bullets that is no blank. -/
def isRow (line : List Char) : Bool :=
  line.contains '|' || !(line.dropWhile isBullet).all Text.isBlank

/-- The text of a cell, without its bullets and the blanks around it. -/
def cellText (piece : List Char) : String :=
  Text.trim (String.ofList (piece.dropWhile isBullet))

/-- The rows among some lines, each as the texts of its cells. -/
def rowsOf (lines : List (List Char)) : List (List String) :=
  (lines.filter isRow).map fun line => (line.splitOn '|').map cellText

/-- The rows of a table. -/
def tableRows (raw : String) : List (List String) :=
  rowsOf (tableLines raw.toList)

/-- The largest number of cells in a row. -/
def maxLength (rows : List (List String)) : Nat :=
  (rows.map List.length).foldr max 0

/-- The table of this size with the cells of the rows, and empty cells where a row has none. -/
def Table.ofRows (width height : Nat) (rows : List (List String)) : Table :=
  { width, height
    cells := (List.range width).map fun column =>
      (List.range height).map fun row => ((rows[row]?).bind (·[column]?)).getD "" }

/-! ## Lines -/

theorem tableLines_eq (cs : List Char) : tableLines cs = (unifyBreaks cs).splitOn '\n' := by
  fun_induction unifyBreaks cs with
  | case1 => rfl
  | case2 cs ih => simp [tableLines, ih, List.splitOn_cons_eq_if_modifyHead]
  | case3 cs hnot ih =>
    have hlines : tableLines ('\r' :: cs) = [] :: tableLines cs := by
      rw [tableLines]
      · rfl
      · exact fun rest _ => hnot rest
    rw [hlines, ih, List.splitOn_cons_eq_if_modifyHead]
    rfl
  | case4 c cs hpair hreturn ih =>
    have hreturn : c ≠ '\r' := hreturn
    have hlines : tableLines (c :: cs) =
        if isBreak c then [] :: tableLines cs else (tableLines cs).modifyHead (c :: ·) := by
      rw [tableLines]
      exact fun _ h => absurd h hreturn
    rw [hlines, ih, List.splitOn_cons_eq_if_modifyHead]
    simp [isBreak, hreturn]

/-! ## Cells in their places -/

/-- The cells of a row, side by side from a column on. -/
def rowCells (row column : Nat) (texts : List String) : List Cell :=
  (texts.zipIdx column).map fun (text, column) => { column, row, text }

/-- The cells of all rows, one below the other from a row on. -/
def cellsOf (row : Nat) (rows : List (List String)) : List Cell :=
  (rows.zipIdx row).flatMap fun (texts, row) => rowCells row 0 texts

theorem rowCells_cons (row column : Nat) (text : String) (texts : List String) :
    rowCells row column (text :: texts) =
      { column, row, text } :: rowCells row (column + 1) texts := rfl

theorem cellsOf_cons (row : Nat) (texts : List String) (rows : List (List String)) :
    cellsOf row (texts :: rows) = rowCells row 0 texts ++ cellsOf (row + 1) rows := rfl

/-! ## Reading a line -/

namespace TableState

/-- What the cell that is being read gains by a piece of text without pipes. -/
def gain (s : TableState) (piece : List Char) : List Char :=
  if s.atCellStart then piece.dropWhile isBullet else piece

/-- The texts of the cells of a line, from the middle of a cell on. -/
def texts (s : TableState) (line : List Char) : List String :=
  match line.splitOn '|' with
  | [] => []
  | piece :: pieces =>
    Text.trim (s.buf ++ String.ofList (s.gain piece)) :: pieces.map cellText

theorem texts_nil (s : TableState) : s.texts [] = [s.cell.text] := by
  simp [texts, gain, cell]

theorem texts_pipe (s : TableState) (line : List Char) :
    s.texts ('|' :: line) = s.cell.text :: (line.splitOn '|').map cellText := by
  simp [texts, List.splitOn_cons_eq_if_modifyHead, gain, cell]

theorem texts_cons {s t : TableState} {c : Char} (hc : c ≠ '|')
    (h : ∀ piece, s.buf ++ String.ofList (s.gain (c :: piece)) = t.buf ++ String.ofList (t.gain piece))
    (line : List Char) : s.texts (c :: line) = t.texts line := by
  have hsplit : (c :: line).splitOn '|' = (line.splitOn '|').modifyHead (c :: ·) := by
    simp [List.splitOn_cons_eq_if_modifyHead, hc]
  unfold texts
  rw [hsplit]
  cases line.splitOn '|' with
  | nil => rfl
  | cons piece pieces => simp only [List.modifyHead_cons, h]

/-- At the start of a line with nothing but blanks in the buffer, the cells are the pieces. -/
theorem texts_of_blank {s : TableState} (hstart : s.atCellStart = true)
    (hbuf : ∀ c ∈ s.buf.toList, Text.isBlank c = true) (line : List Char) :
    s.texts line = (line.splitOn '|').map cellText := by
  unfold texts
  cases line.splitOn '|' with
  | nil => rfl
  | cons piece pieces =>
    have htrim := Text.trim_blanks_append hbuf (piece.dropWhile isBullet)
    rw [String.ofList_append, String.ofList_toList] at htrim
    simp [gain, hstart, htrim, cellText]

end TableState

/-- The cell ends at a pipe, and the next one starts with an empty buffer. -/
theorem cellsFrom_pipe (s : TableState) (rest : List Char) :
    cellsFrom s ('|' :: rest) = s.cell :: cellsFrom
      { s with column := s.column + 1, rowUsed := true, atCellStart := true, buf := "" } rest := by
  rw [cellsFrom, if_pos rfl]

/-- A bullet is dropped at the start of a cell, and any other character goes to the buffer. -/
theorem cellsFrom_plain (s : TableState) {c : Char} (hpipe : c ≠ '|') (hbreak : c ≠ '\n') :
    ∃ t : TableState, (∀ rest, cellsFrom s (c :: rest) = cellsFrom t rest) ∧ t.row = s.row ∧
      t.column = s.column ∧ t.rowUsed = s.rowUsed ∧
      ∀ piece, s.buf ++ String.ofList (s.gain (c :: piece)) = t.buf ++ String.ofList (t.gain piece) := by
  by_cases hbullet : (isBullet c && s.atCellStart) = true
  · refine ⟨s, fun rest => by simp [cellsFrom, hpipe, hbreak, hbullet], rfl, rfl, rfl, ?_⟩
    simp only [Bool.and_eq_true] at hbullet
    simp [TableState.gain, hbullet]
  · refine ⟨{ s with atCellStart := false, buf := s.buf.push c },
      fun rest => by simp [cellsFrom, hpipe, hbreak, hbullet], rfl, rfl, rfl, fun piece => ?_⟩
    have hkept : s.gain (c :: piece) = c :: piece := by
      unfold TableState.gain
      split
      · simp_all
      · rfl
    rw [hkept, ← String.toList_inj]
    simp [TableState.gain]

/-- **One line of a table.** It gives the cells in front of its last pipe and ends in a state that holds
the last one. Without a pipe, all of the line goes to the buffer. -/
theorem cellsFrom_line (s : TableState) {line : List Char} (hline : '\n' ∉ line) :
    ∃ front s', (∀ rest, cellsFrom s (line ++ rest) = front ++ cellsFrom s' rest) ∧
      front ++ [s'.cell] = rowCells s.row s.column (s.texts line) ∧ s'.row = s.row ∧
      (s'.rowUsed = true ↔ s.rowUsed = true ∨ '|' ∈ line) ∧
      ('|' ∉ line → front = [] ∧ s'.buf = s.buf ++ String.ofList (s.gain line)) := by
  induction line generalizing s with
  | nil =>
    refine ⟨[], s, fun rest => rfl, ?_, rfl, by simp, fun _ => ⟨rfl, by simp [TableState.gain]⟩⟩
    rw [TableState.texts_nil]
    rfl
  | cons c line ih =>
    simp only [List.mem_cons, not_or] at hline
    have hbreak : c ≠ '\n' := fun h => hline.1 h.symm
    by_cases hpipe : c = '|'
    · subst hpipe
      let t : TableState :=
        { s with column := s.column + 1, rowUsed := true, atCellStart := true, buf := "" }
      obtain ⟨front, s', hcells, hfront, hrow, hused, -⟩ := ih t hline.2
      refine ⟨s.cell :: front, s', fun rest => ?_, ?_, hrow, by simpa [t] using hused, by simp⟩
      · rw [List.cons_append, cellsFrom_pipe, hcells]
        rfl
      · rw [List.cons_append, hfront, TableState.texts_pipe, rowCells_cons,
          TableState.texts_of_blank rfl (by simp [t])]
        rfl
    · have hne : '|' ≠ c := fun h => hpipe h.symm
      obtain ⟨t, ht, hrow, hcolumn, hused, hgain⟩ := cellsFrom_plain s hpipe hbreak
      obtain ⟨front, s', hcells, hfront, hrow', hused', hplain⟩ := ih t hline.2
      refine ⟨front, s', fun rest => ?_, ?_, hrow'.trans hrow, by simp [hused', hused, hne], ?_⟩
      · rw [List.cons_append, ht, hcells]
      · rw [hfront, hrow, hcolumn, TableState.texts_cons hpipe hgain]
      · intro hnone
        simp only [List.mem_cons, not_or] at hnone
        obtain ⟨hnil, hbuf⟩ := hplain hnone.2
        exact ⟨hnil, hbuf.trans (hgain line).symm⟩

/-! ## Reading all lines -/

/-- A line that starts with nothing but blanks in the buffer opens a row if it is one, and otherwise
leaves nothing but blanks. -/
theorem cellsFrom_row (row : Nat) {buf : String} (hbuf : ∀ c ∈ buf.toList, Text.isBlank c = true)
    {line : List Char} (hline : '\n' ∉ line) :
    ∃ front s', (∀ rest, cellsFrom { row, buf } (line ++ rest) = front ++ cellsFrom s' rest) ∧
      s'.row = row ∧ s'.opensRow = isRow line ∧
      (isRow line = true → front ++ [s'.cell] = rowCells row 0 ((line.splitOn '|').map cellText)) ∧
      (isRow line = false → front = [] ∧ ∀ c ∈ s'.buf.toList, Text.isBlank c = true) := by
  obtain ⟨front, s', hcells, hfront, hrow, hused, hplain⟩ := cellsFrom_line { row, buf } hline
  rw [TableState.texts_of_blank rfl hbuf] at hfront
  by_cases hpipe : '|' ∈ line
  · have hisRow : isRow line = true := by simp [isRow, hpipe]
    have hopens : s'.opensRow = true := by simp [TableState.opensRow, hused.2 (.inr hpipe)]
    exact ⟨front, s', hcells, hrow, hopens.trans hisRow.symm, fun _ => hfront,
      fun h => absurd (hisRow.symm.trans h) (by decide)⟩
  · obtain ⟨hnil, hkept⟩ := hplain hpipe
    have hchars : s'.buf.toList = buf.toList ++ line.dropWhile isBullet := by
      simp [hkept, TableState.gain]
    have hopens : s'.opensRow = isRow line := by
      have hnot : s'.rowUsed = false := by
        rw [Bool.eq_false_iff, ne_eq, hused]
        simp [hpipe]
      have hempty := Text.isEmpty_trim s'.buf
      rw [hchars, List.all_append, List.all_eq_true.2 hbuf, Bool.true_and] at hempty
      simp [TableState.opensRow, isRow, hnot, hempty, hpipe]
    refine ⟨front, s', hcells, hrow, hopens, fun _ => hfront, fun h => ⟨hnil, ?_⟩⟩
    have hblank : (line.dropWhile isBullet).all Text.isBlank = true := by simpa [isRow, hpipe] using h
    rw [hchars]
    intro c hc
    rcases List.mem_append.1 hc with hc | hc
    · exact hbuf c hc
    · exact List.all_eq_true.1 hblank c hc

/-- **The lines of a table**, one below the other, give the cells of their rows. -/
theorem cellsFrom_lines {lines : List (List Char)} (hlines : ∀ line ∈ lines, '\n' ∉ line)
    (hne : lines ≠ []) (row : Nat) {buf : String} (hbuf : ∀ c ∈ buf.toList, Text.isBlank c = true) :
    cellsFrom { row, buf } (['\n'].intercalate lines) = cellsOf row (rowsOf lines) := by
  induction lines generalizing row buf with
  | nil => exact absurd rfl hne
  | cons line lines ih =>
    simp only [List.forall_mem_cons] at hlines
    obtain ⟨front, s', hcells, hrow, hopens, hkept, hleft⟩ := cellsFrom_row row hbuf hlines.1
    cases lines with
    | nil =>
      have hend := hcells []
      rw [List.append_nil, cellsFrom, hopens] at hend
      rw [List.intercalate_singleton, hend]
      cases hisRow : isRow line with
      | true => simp [rowsOf, hisRow, hkept hisRow, cellsOf]
      | false => simp [rowsOf, hisRow, (hleft hisRow).1, cellsOf]
    | cons next lines =>
      have hnext : cellsFrom s' ('\n' :: ['\n'].intercalate (next :: lines)) =
          if isRow line then
            s'.cell :: cellsFrom { row := row + 1 } (['\n'].intercalate (next :: lines))
          else cellsFrom { row, buf := s'.buf } (['\n'].intercalate (next :: lines)) := by
        rw [cellsFrom, if_neg (by decide), if_pos rfl, hopens, hrow]
      rw [List.intercalate_cons_cons, List.append_assoc, List.singleton_append, hcells, hnext]
      cases hisRow : isRow line with
      | true =>
        rw [if_pos rfl, ih hlines.2 (by simp) _ (by simp), List.append_cons, hkept hisRow]
        simp [rowsOf, hisRow, cellsOf_cons]
      | false =>
        rw [if_neg (by decide), ih hlines.2 (by simp) _ (hleft hisRow).2, (hleft hisRow).1]
        simp [rowsOf, hisRow]

theorem rawCells_eq (raw : String) : rawCells raw = cellsOf 0 (tableRows raw) := by
  have hlines : ∀ line ∈ tableLines raw.toList, '\n' ∉ line := by
    rw [tableLines_eq]
    exact fun _ => Text.not_mem_of_mem_splitOn
  have hempty : ∀ c ∈ "".toList, Text.isBlank c = true := by simp
  have hcells := cellsFrom_lines hlines (by simp [tableLines_eq]) 0 hempty
  rw [tableLines_eq, List.intercalate_splitOn] at hcells
  rw [rawCells, hcells, tableRows, tableLines_eq]

/-! ## The table of the cells -/

theorem mem_cellsOf {rows : List (List String)} {cell : Cell} :
    cell ∈ cellsOf 0 rows ↔
      ∃ texts, rows[cell.row]? = some texts ∧ texts[cell.column]? = some cell.text := by
  obtain ⟨column, row, text⟩ := cell
  simp only [cellsOf, rowCells, List.mem_flatMap, List.mem_map, Prod.exists,
    List.mk_mem_zipIdx_iff_getElem?, Cell.mk.injEq]
  constructor
  · rintro ⟨texts, row, hrow, text, column, htext, rfl, rfl, rfl⟩
    exact ⟨texts, hrow, htext⟩
  · rintro ⟨texts, hrow, htext⟩
    exact ⟨texts, row, hrow, text, column, htext, rfl, rfl, rfl⟩

theorem textAt_cellsOf (rows : List (List String)) (column row : Nat) :
    textAt (cellsOf 0 rows) column row = ((rows[row]?).bind (·[column]?)).getD "" := by
  unfold textAt
  cases hfind : (cellsOf 0 rows).find? fun c => c.column == column && c.row == row with
  | some cell =>
    obtain ⟨texts, hrow, htext⟩ := mem_cellsOf.1 (List.mem_of_find?_eq_some hfind)
    have hplace := List.find?_some hfind
    simp only [Bool.and_eq_true, beq_iff_eq] at hplace
    obtain ⟨rfl, rfl⟩ := hplace
    simp [hrow, htext]
  | none =>
    rw [List.find?_eq_none] at hfind
    cases htext : (rows[row]?).bind (·[column]?) with
    | none => rfl
    | some text =>
      obtain ⟨texts, hrow, hcolumn⟩ := Option.bind_eq_some_iff.1 htext
      have hcell : { column, row, text : Cell } ∈ cellsOf 0 rows :=
        mem_cellsOf.2 ⟨texts, hrow, hcolumn⟩
      exact absurd (by simp) (hfind _ hcell)

/-- A number that bounds all others and is one of them is what their maximum comes to. -/
theorem foldl_max_eq {cells : List Cell} {f : Cell → Nat} {n k : Nat} (hn : n ≤ k)
    (hle : ∀ c ∈ cells, f c ≤ k) (hmax : n = k ∨ ∃ c ∈ cells, f c = k) :
    cells.foldl (fun n c => max n (f c)) n = k := by
  induction cells generalizing n with
  | nil => simpa using hmax
  | cons c cells ih =>
    simp only [List.forall_mem_cons] at hle
    rw [List.foldl_cons]
    refine ih (by omega) hle.2 ?_
    rcases hmax with rfl | ⟨d, hd, hmax⟩
    · exact .inl (by omega)
    · rcases List.mem_cons.1 hd with rfl | hd
      · exact .inl (by omega)
      · exact .inr ⟨d, hd, hmax⟩

theorem length_le_maxLength {rows : List (List String)} {texts : List String} (h : texts ∈ rows) :
    texts.length ≤ maxLength rows := by
  induction rows with
  | nil => cases h
  | cons row rows ih =>
    have hmax : maxLength (row :: rows) = max row.length (maxLength rows) := rfl
    rcases List.mem_cons.1 h with rfl | h
    · omega
    · have := ih h
      omega

theorem exists_length_eq_maxLength (rows : List (List String)) :
    maxLength rows = 0 ∨ ∃ texts ∈ rows, texts.length = maxLength rows := by
  induction rows with
  | nil => exact .inl rfl
  | cons row rows ih =>
    have hmax : maxLength (row :: rows) = max row.length (maxLength rows) := rfl
    by_cases hle : maxLength rows ≤ row.length
    · exact .inr ⟨row, List.mem_cons_self, by omega⟩
    · rcases ih with hzero | ⟨texts, hmem, hlength⟩
      · omega
      · exact .inr ⟨texts, List.mem_cons_of_mem _ hmem, by omega⟩

/-- **Every cell lies inside the table.** -/
theorem cell_lt {rows : List (List String)} {cell : Cell} (h : cell ∈ cellsOf 0 rows) :
    cell.column < maxLength rows ∧ cell.row < rows.length := by
  obtain ⟨texts, hrow, htext⟩ := mem_cellsOf.1 h
  have hcolumn := List.getElem?_eq_some_iff.1 htext
  have hlength := length_le_maxLength (List.mem_of_getElem? hrow)
  exact ⟨Nat.lt_of_lt_of_le hcolumn.1 hlength, (List.getElem?_eq_some_iff.1 hrow).1⟩

/-- The smallest table that holds the cells of some rows is as wide as the longest of them and has a
place for each. -/
theorem ofCells_cellsOf {rows : List (List String)} (hrows : ∀ texts ∈ rows, texts ≠ []) :
    Table.ofCells (cellsOf 0 rows) = Table.ofRows (maxLength rows) rows.length rows := by
  have hwidth : (cellsOf 0 rows).foldl (fun n c => max n (c.column + 1)) 0 = maxLength rows := by
    refine foldl_max_eq (Nat.zero_le _) (fun c hc => (cell_lt hc).1) ?_
    rcases exists_length_eq_maxLength rows with hzero | ⟨texts, hmem, hlength⟩
    · exact .inl hzero.symm
    · obtain ⟨row, hrow⟩ := List.getElem?_of_mem hmem
      have hne : texts.length ≠ 0 := fun h => hrows texts hmem (List.length_eq_zero_iff.1 h)
      have hlast : texts.length - 1 < texts.length := by omega
      refine .inr ⟨{ column := texts.length - 1, row, text := texts[texts.length - 1] },
        mem_cellsOf.2 ⟨texts, hrow, List.getElem?_eq_getElem hlast⟩, ?_⟩
      show texts.length - 1 + 1 = maxLength rows
      omega
  have hheight : (cellsOf 0 rows).foldl (fun n c => max n (c.row + 1)) 0 = rows.length := by
    refine foldl_max_eq (Nat.zero_le _) (fun c hc => (cell_lt hc).2) ?_
    by_cases hempty : rows.length = 0
    · exact .inl hempty.symm
    · have hlast : rows.length - 1 < rows.length := by omega
      obtain ⟨text, texts, hfirst⟩ := List.exists_cons_of_ne_nil (hrows _ (List.getElem_mem hlast))
      refine .inr ⟨{ column := 0, row := rows.length - 1, text },
        mem_cellsOf.2 ⟨_, List.getElem?_eq_getElem hlast, by simp [hfirst]⟩, ?_⟩
      show rows.length - 1 + 1 = rows.length
      omega
  simp only [Table.ofCells, Table.ofRows, hwidth, hheight, textAt_cellsOf]

/-! ## Formatting the cells -/

section
variable {m : Type → Type} [Monad m] [LawfulMonad m]

/-- The cells are formatted where they stand. -/
theorem mapM_rowCells (f : String → m String) (row column : Nat) (texts : List String) :
    ((rowCells row column texts).mapM fun cell => do
      return { cell with text := ← f cell.text }) =
      rowCells row column <$> texts.mapM f := by
  induction texts generalizing column with
  | nil => simp [rowCells]
  | cons text texts ih =>
    simp only [rowCells_cons, List.mapM_cons, ih]
    simp [rowCells_cons]

theorem mapM_cellsOf (f : String → m String) (row : Nat) (rows : List (List String)) :
    ((cellsOf row rows).mapM fun cell => do
      return { cell with text := ← f cell.text }) =
      cellsOf row <$> rows.mapM fun texts => texts.mapM f := by
  induction rows generalizing row with
  | nil => simp [cellsOf]
  | cons texts rows ih =>
    simp only [cellsOf_cons, List.mapM_append, List.mapM_cons, ih, mapM_rowCells]
    simp [cellsOf_cons]

/-- What is known of each result in turn is known of all of them: two continuations that agree on the
lists with this knowledge are the same. -/
theorem mapM_bind_congr {α β γ σ : Type} {f : α → m β} {p : α → σ} {q : β → σ}
    (hf : ∀ a (k k' : β → m γ), (∀ b, q b = p a → k b = k' b) → f a >>= k = f a >>= k') {xs : List α}
    {k k' : List β → m γ} (h : ∀ ys, ys.map q = xs.map p → k ys = k' ys) :
    xs.mapM f >>= k = xs.mapM f >>= k' := by
  induction xs generalizing k k' with
  | nil => simpa using h [] rfl
  | cons x xs ih =>
    simp only [List.mapM_cons, bind_assoc, pure_bind]
    refine hf x _ _ fun y hy => ih fun ys hys => ?_
    exact h (y :: ys) (by rw [List.map_cons, List.map_cons, hy, hys])

/-- Formatting keeps the shape of rows. -/
theorem mapM_rows_bind_congr {β : Type} (f : String → m String) {rows : List (List String)}
    {k k' : List (List String) → m β}
    (h : ∀ rows', rows'.map List.length = rows.map List.length → k rows' = k' rows') :
    (rows.mapM fun texts => texts.mapM f) >>= k = (rows.mapM fun texts => texts.mapM f) >>= k' := by
  refine mapM_bind_congr (fun texts k k' hk => ?_) h
  refine mapM_bind_congr (p := fun _ => ()) (q := fun _ => ()) (fun a k k' hk => ?_) fun ys hys => hk ys ?_
  · rw [funext fun b => hk b rfl]
  · simpa using congrArg List.length hys

end

/-! ## The whole table -/

theorem ne_nil_of_mem_tableRows {raw : String} {texts : List String} (h : texts ∈ tableRows raw) :
    texts ≠ [] := by
  obtain ⟨line, -, rfl⟩ := List.mem_map.1 h
  simp

/-- **A table is its lines and pipes.** The pieces are formatted row by row from left to right. The
table has as many rows as there are lines that show something and as many columns as the longest of
these has pieces; where a row has fewer the cells are empty. Every cell that is read has its place. -/
theorem parseTable_eq {m : Type → Type} [Monad m] [LawfulMonad m] (render : Construct → m String)
    (strip : Bool) (raw : String) :
    (parseTable render strip raw = do
      let rows ← (tableRows raw).mapM fun texts => texts.mapM (format render strip)
      return Table.ofRows (maxLength (tableRows raw)) (tableRows raw).length rows) ∧
    ∀ cell ∈ rawCells raw,
      cell.column < maxLength (tableRows raw) ∧ cell.row < (tableRows raw).length := by
  refine ⟨?_, fun cell hcell => cell_lt (rawCells_eq raw ▸ hcell)⟩
  simp only [parseTable, rawCells_eq, mapM_cellsOf, bind_map_left]
  refine mapM_rows_bind_congr (format render strip) fun rows hlengths => ?_
  have hrows : ∀ texts ∈ rows, texts ≠ [] := by
    rintro _ hmem rfl
    have hzero : 0 ∈ (tableRows raw).map List.length := hlengths ▸ List.mem_map_of_mem hmem
    obtain ⟨texts, htexts, hlength⟩ := List.mem_map.1 hzero
    exact ne_nil_of_mem_tableRows htexts (List.length_eq_zero_iff.1 hlength)
  have hheight : rows.length = (tableRows raw).length := by simpa using congrArg List.length hlengths
  rw [ofCells_cellsOf hrows, hheight, maxLength, hlengths, maxLength]

/-- A renderer that keeps a list of the words it was handed. -/
def keepWords : Construct → StateM (List String) String
  | .highlight word => do
    modify (· ++ [word])
    return "*" ++ word
  | _ => return ""

/-- A table with bullets, rows of different lengths, lines that show nothing and all kinds of line
breaks. -/
def raggedTable : String :=
  "\r\n  * @Key | Value\r\n\u00a0\n * \na|b @c|\rlast"

theorem parseTable_raggedTable :
    tableRows raggedTable = [["@Key", "Value"], ["a", "b @c", ""], ["last"]] ∧
    ((parseTable keepWords false raggedTable).run []).run =
      ({ width := 3, height := 3
         cells := [["*Key", "a", "last"], ["Value", "b *c", ""], ["", "", ""]] }, ["Key", "c"]) := by
  refine ⟨by decide +kernel, ?_⟩
  rw [(parseTable_eq keepWords false raggedTable).1]
  decide +kernel

end BlitzDoc.Markup
