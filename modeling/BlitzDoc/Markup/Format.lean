import BlitzDoc.Markup.Piece
import BlitzDoc.Markup.Table

/-!
# Formatting

Formatting hands every construct of a text to a renderer, from left to right, and puts what the
renderer returns in its place. The cells of a table are formatted first, each on its own, and the
table is handed over with them. A renderer may keep a state, so it runs in a monad.
-/

namespace BlitzDoc.Markup

variable {m : Type → Type} [Monad m]

/-- A cell is shorter than the text that holds its table. -/
theorem length_cell_lt {strip : Bool} {text raw : String} {p : Piece} {cell : Cell}
    (hp : p ∈ pieces strip text) (hm : p.meaning = .table raw) (hc : cell ∈ rawCells raw) :
    cell.text.length < text.length :=
  Nat.lt_of_le_of_lt (length_le_of_mem_rawCells hc)
    (length_lt_of_mem_pieces (eq_bracket_of_meaning_eq_table hm ▸ hp))

/-- Formats a text. With `strip`, line breaks are dropped before anything else sees them. -/
def format (render : Construct → m String) (strip : Bool) (text : String) : m String := do
  let parts ← (pieces strip text).attach.mapM fun ⟨p, hp⟩ =>
    match hm : p.meaning with
    | .literal s => pure s
    | .construct c => render c
    | .table raw => do
      let cells ← (rawCells raw).attach.mapM fun ⟨cell, hc⟩ => do
        have := length_cell_lt hp hm hc
        return { cell with text := ← format render strip cell.text }
      render (.table (Table.ofCells cells))
  return String.join parts
termination_by text.length

/-- Reads a table and formats its cells. -/
def parseTable (render : Construct → m String) (strip : Bool) (raw : String) : m Table := do
  let cells ← (rawCells raw).mapM fun cell => do
    return { cell with text := ← format render strip cell.text }
  return Table.ofCells cells

/-- Renders a piece of a text. -/
def renderPiece (render : Construct → m String) (strip : Bool) (p : Piece) : m String :=
  match p.meaning with
  | .literal s => pure s
  | .construct c => render c
  | .table raw => do
    let t ← parseTable render strip raw
    render (.table t)

/-- Formatting renders the pieces of a text one after the other. -/
theorem format_eq [LawfulMonad m] (render : Construct → m String) (strip : Bool) (text : String) :
    format render strip text = do
      let parts ← (pieces strip text).mapM (renderPiece render strip)
      return String.join parts := by
  rw [format]
  simp only [bind_pure_comp, List.mapM_subtype, List.unattach_attach]
  congr 2
  funext p
  unfold renderPiece parseTable
  split <;> simp_all

/-- What a renderer without state makes of a text. -/
def formatPure (render : Construct → String) (strip : Bool) (text : String) : String :=
  Id.run (format (fun c => pure (render c)) strip text)

end BlitzDoc.Markup
