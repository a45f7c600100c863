import BlitzDoc.Markup.Construct

/-!
# Tables

Inside brackets, pipes divide cells and line breaks divide rows. Blank lines open no row, and
blanks and stars in front of a cell are dropped. `rawCells` finds the cells in reading order;
`Table.ofCells` arranges them.
-/

namespace BlitzDoc.Markup

/-- A cell by its place, with its text. -/
structure Cell where
  column : Nat
  row : Nat
  text : String
deriving DecidableEq, Repr

/-- Where the reader of a table stands. -/
structure TableState where
  column : Nat := 0
  row : Nat := 0
  /-- The row has a cell already. -/
  rowUsed : Bool := false
  /-- Nothing of the cell was kept yet. -/
  atCellStart : Bool := true
  buf : String := ""

namespace TableState

/-- The cell that was read. -/
def cell (s : TableState) : Cell :=
  { column := s.column, row := s.row, text := Text.trim s.buf }

/-- The line has something to show for. -/
def opensRow (s : TableState) : Bool :=
  s.rowUsed || !(Text.trim s.buf).isEmpty

end TableState

/-- Makes every line break a single line feed. -/
def unifyBreaks : List Char → List Char
  | [] => []
  | '\r' :: '\n' :: cs => '\n' :: unifyBreaks cs
  | '\r' :: cs => '\n' :: unifyBreaks cs
  | c :: cs => c :: unifyBreaks cs

/-- The character is dropped in front of a cell. -/
def isBullet (c : Char) : Bool :=
  c == ' ' || c == '\t' || c == '*'

/-- The cells of a text that follows what was read so far. -/
def cellsFrom : TableState → List Char → List Cell
  | s, [] => if s.opensRow then [s.cell] else []
  | s, c :: cs =>
    if c = '|' then
      s.cell :: cellsFrom { s with
        column := s.column + 1, rowUsed := true, atCellStart := true, buf := "" } cs
    else if c = '\n' then
      if s.opensRow then s.cell :: cellsFrom { row := s.row + 1 } cs
      else cellsFrom { row := s.row, buf := s.buf } cs
    else if isBullet c && s.atCellStart then cellsFrom s cs
    else cellsFrom { s with atCellStart := false, buf := s.buf.push c } cs

/-- The cells of a table in reading order. -/
def rawCells (raw : String) : List Cell :=
  cellsFrom {} (unifyBreaks raw.toList)

/-- The text of the cell at a place, empty where there is none. -/
def textAt (cells : List Cell) (column row : Nat) : String :=
  ((cells.find? fun c => c.column == column && c.row == row).map (·.text)).getD ""

/-- The smallest table that holds the cells. -/
def Table.ofCells (cells : List Cell) : Table :=
  let width := cells.foldl (fun n c => max n (c.column + 1)) 0
  let height := cells.foldl (fun n c => max n (c.row + 1)) 0
  { width, height
    cells := (List.range width).map fun column =>
      (List.range height).map fun row => textAt cells column row }

/-! ## Cells are no longer than their table -/

theorem length_unifyBreaks_le (cs : List Char) : (unifyBreaks cs).length ≤ cs.length := by
  fun_induction unifyBreaks cs with
  | case1 => exact Nat.le_refl _
  | case2 cs ih => exact Nat.le_succ_of_le (Nat.succ_le_succ ih)
  | case3 cs _ ih => exact Nat.succ_le_succ ih
  | case4 c cs _ _ ih => exact Nat.succ_le_succ ih

theorem length_le_of_mem_cellsFrom {cs : List Char} {s : TableState} {c : Cell}
    (h : c ∈ cellsFrom s cs) : c.text.length ≤ s.buf.length + cs.length := by
  have hcell (s : TableState) : s.cell.text.length ≤ s.buf.length := Text.length_trim_le s.buf
  induction cs generalizing s with
  | nil =>
    simp only [cellsFrom] at h
    split at h
    · simp only [List.mem_singleton] at h
      subst h
      simpa using hcell s
    · simp at h
  | cons d cs ih =>
    have hs := hcell s
    simp only [cellsFrom] at h
    simp only [List.length_cons]
    split at h
    · rcases List.mem_cons.1 h with rfl | h
      · omega
      · have := ih h
        simp only [String.length_empty] at this
        omega
    split at h
    · split at h
      · rcases List.mem_cons.1 h with rfl | h
        · omega
        · have := ih h
          simp only [String.length_empty] at this
          omega
      · have := ih h
        simp only at this
        omega
    split at h
    · have := ih h
      omega
    · have := ih h
      simp only [String.length_push] at this
      omega

/-- A cell is no longer than its table. -/
theorem length_le_of_mem_rawCells {raw : String} {c : Cell} (h : c ∈ rawCells raw) :
    c.text.length ≤ raw.length := by
  have h1 := length_le_of_mem_cellsFrom h
  have h2 := length_unifyBreaks_le raw.toList
  simp only [String.length_empty, String.length_toList] at h1 h2
  omega

end BlitzDoc.Markup
