import BlitzDoc.Proofs.Markup.Spans

/-!
# Line breaks first

With `strip`, formatting drops the line breaks of a text before it looks at anything else. Tables would
be the one place where the flag is asked again, since their cells are formatted on their own; but
no cell holds a line break (`isBreak_of_mem_rawCells`). So a renderer is called alike with the flag and
without it, once the line breaks are gone. The main statement is `format_strip`.
-/

namespace BlitzDoc.Markup

/-! ## Cells hold no line breaks -/

theorem return_not_mem_unifyBreaks (cs : List Char) : '\r' ∉ unifyBreaks cs := by
  fun_induction unifyBreaks cs with
  | case1 => simp
  | case2 cs ih => simp [ih]
  | case3 cs _ ih => simp [ih]
  | case4 c cs _ hreturn ih =>
    simp only [List.mem_cons, not_or]
    exact ⟨fun h => hreturn h.symm, ih⟩

/-- The buffer of a cell takes no line feed, and there are no other line breaks. -/
theorem isBreak_of_mem_cellsFrom {cs : List Char} (hcs : '\r' ∉ cs) {s : TableState}
    (hs : ∀ c ∈ s.buf.toList, isBreak c = false) {cell : Cell} (h : cell ∈ cellsFrom s cs) :
    ∀ c ∈ cell.text.toList, isBreak c = false := by
  induction cs generalizing s with
  | nil =>
    simp only [cellsFrom] at h
    split at h
    · obtain rfl := List.mem_singleton.1 h
      exact fun c hc => hs c (Text.mem_of_mem_trim hc)
    · cases h
  | cons d cs ih =>
    simp only [List.mem_cons, not_or] at hcs
    have hcell : ∀ c ∈ s.cell.text.toList, isBreak c = false := fun c hc => hs c (Text.mem_of_mem_trim hc)
    simp only [cellsFrom] at h
    split at h
    · rcases List.mem_cons.1 h with rfl | h
      · exact hcell
      · exact ih hcs.2 (by simp) h
    split at h
    · split at h
      · rcases List.mem_cons.1 h with rfl | h
        · exact hcell
        · exact ih hcs.2 (by simp) h
      · exact ih (s := { row := s.row, buf := s.buf }) hcs.2 hs h
    split at h
    · exact ih hcs.2 hs h
    · rename_i hfeed _
      refine ih hcs.2 (fun c hc => ?_) h
      simp only [String.toList_push, List.mem_append, List.mem_singleton] at hc
      rcases hc with hc | rfl
      · exact hs c hc
      · simp [isBreak, hfeed, Ne.symm hcs.1]

theorem isBreak_of_mem_rawCells {raw : String} {cell : Cell} (h : cell ∈ rawCells raw) :
    ∀ c ∈ cell.text.toList, isBreak c = false :=
  isBreak_of_mem_cellsFrom (return_not_mem_unifyBreaks raw.toList) (by simp) h

/-! ## Formatting without line breaks -/

/-- The text without its line breaks. -/
def dropBreaks (text : String) : String :=
  String.ofList (text.toList.filter fun c => c != '\n' && c != '\r')

theorem pieces_strip (text : String) : pieces true text = pieces false (dropBreaks text) := by
  have hkept : ∀ c, (!isBreak c) = (c != '\n' && c != '\r') := by simp [isBreak, bne]
  simp [pieces, dropBreaks, hkept]

theorem dropBreaks_of_forall {text : String} (h : ∀ c ∈ text.toList, isBreak c = false) :
    dropBreaks text = text := by
  have hkept : ∀ c ∈ text.toList, (c != '\n' && c != '\r') = true := by
    intro c hc
    simpa [isBreak] using h c hc
  rw [dropBreaks, List.filter_eq_self.2 hkept, String.ofList_toList]

section
variable {m : Type → Type} [Monad m] [LawfulMonad m] (render : Construct → m String)

/-- A text without line breaks is formatted alike with the flag and without it. The induction is on its
length, since the cells of a table are formatted in turn. -/
theorem format_of_no_break (n : Nat) (text : String) (hn : text.length = n)
    (h : ∀ c ∈ text.toList, isBreak c = false) :
    format render true text = format render false text := by
  induction n using Nat.strong_induction_on generalizing text with
  | _ n ih =>
    have hpieces : pieces true text = pieces false text := by
      rw [pieces_strip, dropBreaks_of_forall h]
    have hparts : (pieces true text).mapM (renderPiece render true) =
        (pieces true text).mapM (renderPiece render false) := by
      refine mapM_congr fun p hp => ?_
      rw [renderPiece_eq, renderPiece_eq]
      refine replaceBy_congr render fun raw hraw cell hcell => ?_
      have hshort := length_cell_lt hp hraw hcell
      exact ih cell.text.length (by omega) cell.text rfl (isBreak_of_mem_rawCells hcell)
    rw [format_eq, format_eq, hparts, hpieces]

/-- The flag makes no difference to a piece. -/
theorem renderPiece_strip : renderPiece render true = renderPiece render false := by
  funext p
  rw [renderPiece_eq, renderPiece_eq]
  refine replaceBy_congr render fun raw _ cell hcell => ?_
  exact format_of_no_break render cell.text.length cell.text rfl (isBreak_of_mem_rawCells hcell)

/-- With the flag, the spans are those of the text without its line breaks. -/
theorem format_true_eq_formatSpans (text : String) :
    format render true text = formatSpans render (dropBreaks text).toList := by
  rw [format_eq, pieces_strip, renderPiece_strip]
  exact renderPieces_eq render _ (dropBreaks text).toList rfl

/-- **Line breaks may as well be dropped first.** For every renderer, formatting with the flag is the
same program as formatting the text without its line breaks. -/
theorem format_strip (text : String) :
    format render true text = format render false (dropBreaks text) := by
  rw [format_eq, format_eq, pieces_strip, renderPiece_strip]

end

/-- Line breaks inside a tag, inside its data, and between the rows of a table with a word in it. -/
def brokenText : String :=
  "[co\nde](a\r\n(b))\n[x|@y\r\n|*z]<b\nr>"

theorem format_strip_brokenText :
    format keepCalls true brokenText = format keepCalls false "[code](a(b))[x|@y|*z]<br>" ∧
      ((format keepCalls true brokenText).run []).run =
        ("**", [.code "a(b)", .highlight "y",
          .table { cells := [["x"], ["*"], ["z"]], width := 3, height := 1 }]) := by
  have hdropped : dropBreaks brokenText = "[code](a(b))[x|@y|*z]<br>" := by decide +kernel
  refine ⟨hdropped ▸ format_strip keepCalls brokenText, ?_⟩
  rw [format_true_eq_formatSpans, hdropped]
  decide +kernel

end BlitzDoc.Markup
