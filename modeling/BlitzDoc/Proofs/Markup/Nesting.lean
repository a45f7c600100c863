import BlitzDoc.Proofs.Markup.PipeTables

/-!
# How deep formatting goes

Formatting calls itself for the cells of tables. A cell has no pipe and no line break in it, and without
these there is no table; so no table stands inside of another, and the calls go one level deep. Every
inner call gets a shorter text. The scanner beneath them takes a character in at most two turns of its
loop, since what hands a character back is followed by plain text, which takes any (`turns_iff`).

The main statement is `format_nesting`. That something is not called is said by putting anything else in
its place: formatting is the same program whatever would format the cells of an inner table
(`formatBy`), and reading a table is the same program whatever the renderer makes of tables.
-/

namespace BlitzDoc.Markup

/-! ## The loop of the scanner -/

/-- The scanner offers a character until it is kept. `Turns s c n r` says that from the state `s` the
character `c` is offered `n` times and leaves the state and the pieces `r`. -/
inductive Turns : State → Char → Nat → State × List Piece → Prop
  | keep {s : State} {c : Char} (h : (s.take c).handedBack = false) :
      Turns s c 1 ((s.take c).state, (s.take c).pieces)
  | handBack {s : State} {c : Char} {n : Nat} {r : State × List Piece}
      (h : (s.take c).handedBack = true) (again : Turns (s.take c).state c n r) :
      Turns s c (n + 1) (r.1, (s.take c).pieces ++ r.2)

/-- **The loop takes every character**, in a second turn exactly if it is handed back in the first. -/
theorem turns_iff {s : State} {c : Char} {n : Nat} {r : State × List Piece} :
    Turns s c n r ↔ n = (if (s.take c).handedBack then 2 else 1) ∧ r = s.push c := by
  constructor
  · intro h
    cases h with
    | keep hkept => simp [State.push, hkept]
    | handBack hback again =>
      have hstate := state_take_of_handedBack hback
      rw [hstate] at again
      cases again with
      | keep => simp [State.push, hback, hstate]
      | handBack htwice => rw [handedBack_text] at htwice; cases htwice
  · rintro ⟨rfl, rfl⟩
    cases hback : (s.take c).handedBack with
    | false => simpa [State.push, hback] using Turns.keep hback
    | true =>
      have hagain := Turns.keep (handedBack_text c)
      rw [← state_take_of_handedBack hback] at hagain
      simpa [State.push, hback] using Turns.handBack hback hagain

/-! ## Formatting, one level at a time -/

/-- The texts that are formatted in turn when a text is formatted: the cells of its tables. -/
def cellTexts (strip : Bool) (text : String) : List String :=
  (pieces strip text).flatMap fun p =>
    match p.meaning with
    | .table raw => (rawCells raw).map Cell.text
    | _ => []

variable {m : Type → Type} [Monad m]

/-- Formats a text, where `formatCell` formats the cells of its tables. -/
def formatBy (formatCell : String → m String) (render : Construct → m String) (strip : Bool)
    (text : String) : m String := do
  let parts ← (pieces strip text).mapM fun p => replaceBy formatCell render p.meaning
  return String.join parts

theorem mem_cellTexts {strip : Bool} {text t : String} :
    t ∈ cellTexts strip text ↔
      ∃ p ∈ pieces strip text, ∃ raw, p.meaning = .table raw ∧ ∃ cell ∈ rawCells raw, cell.text = t := by
  rw [cellTexts, List.mem_flatMap]
  refine exists_congr fun p => and_congr_right fun _ => ?_
  cases p.meaning with
  | literal s => simp
  | construct k => simp
  | table raw => simp

/-- A cell is shorter than the text that its table stands in. -/
theorem length_lt_of_mem_cellTexts {strip : Bool} {text t : String} (h : t ∈ cellTexts strip text) :
    t.length < text.length := by
  obtain ⟨p, hp, raw, hraw, cell, hcell, rfl⟩ := mem_cellTexts.1 h
  exact length_cell_lt hp hraw hcell

/-- There are no tables in a text without pipes and line breaks. -/
theorem cellTexts_of_unmarked {strip : Bool} {text : String} (h : Unmarked text) :
    cellTexts strip text = [] := by
  rw [List.eq_nil_iff_forall_not_mem]
  intro t ht
  obtain ⟨p, hp, raw, hraw, -⟩ := mem_cellTexts.1 ht
  have hmeaning := unmarked_meaning (unmarked_of_mem_pieces h hp)
  rw [hraw] at hmeaning
  cases hmeaning

theorem unmarked_of_mem_cellTexts {strip : Bool} {text t : String} (h : t ∈ cellTexts strip text) :
    Unmarked t := by
  obtain ⟨p, hp, raw, hraw, cell, hcell, rfl⟩ := mem_cellTexts.1 h
  exact unmarked_of_mem_rawCells hcell

section
variable [LawfulMonad m]

theorem format_eq_formatBy (render : Construct → m String) (strip : Bool) (text : String) :
    format render strip text = formatBy (format render strip) render strip text := by
  rw [format_eq, funext (renderPiece_eq render strip), formatBy]

/-- Formatting depends on the formatting of the cells alone. -/
theorem formatBy_congr {f g : String → m String} (render : Construct → m String) {strip : Bool}
    {text : String} (h : ∀ t ∈ cellTexts strip text, f t = g t) :
    formatBy f render strip text = formatBy g render strip text := by
  have hpieces : ∀ p ∈ pieces strip text,
      replaceBy f render p.meaning = replaceBy g render p.meaning := by
    intro p hp
    refine replaceBy_congr render fun raw hraw cell hcell => h cell.text ?_
    exact mem_cellTexts.2 ⟨p, hp, raw, hraw, cell, hcell, rfl⟩
  rw [formatBy, formatBy, mapM_congr hpieces]

/-- The renderers agree on all that is no table. -/
def AgreeButTables (render render' : Construct → m String) : Prop :=
  ∀ k, (∀ t, k ≠ .table t) → render k = render' k

/-- A text without pipes and line breaks has no cells, and no table is rendered for it. -/
theorem formatBy_of_unmarked {text : String} (h : Unmarked text) {render render' : Construct → m String}
    (hrender : AgreeButTables render render') (f g : String → m String) (strip : Bool) :
    formatBy f render strip text = formatBy g render' strip text := by
  have hpieces : ∀ p ∈ pieces strip text,
      replaceBy f render p.meaning = replaceBy g render' p.meaning := by
    intro p hp
    have hmeaning := unmarked_meaning (unmarked_of_mem_pieces h hp)
    generalize p.meaning = meaning at hmeaning ⊢
    cases hmeaning with
    | literal _ => rfl
    | construct hk => exact hrender _ fun t ht => by rw [ht] at hk; cases hk
  rw [formatBy, formatBy, mapM_congr hpieces]

/-- **The renderer is handed no table while a table is read**: its cells are formatted alike whatever it
makes of tables. -/
theorem parseTable_of_agree {render render' : Construct → m String}
    (h : AgreeButTables render render') (strip : Bool) (raw : String) :
    parseTable render strip raw = parseTable render' strip raw := by
  have hcells : ∀ cell ∈ rawCells raw,
      format render strip cell.text = format render' strip cell.text := by
    intro cell hcell
    rw [format_eq_formatBy, format_eq_formatBy]
    exact formatBy_of_unmarked (unmarked_of_mem_rawCells hcell) h _ _ strip
  rw [parseTable, parseTable, mapM_congr fun cell hcell => by rw [hcells cell hcell]]

/-- **Formatting goes one level deep.** It calls itself for the cells of tables alone, each of them a
shorter text without cells of its own, so what would format the cells of a cell does not matter. The
renderer is handed no table while a table is read, and the loop of the scanner takes each character in
one turn or two. -/
theorem format_nesting (render : Construct → m String) (strip : Bool) (text : String) :
    (∀ formatCell, (∀ t ∈ cellTexts strip text, formatCell t = format render strip t) →
        format render strip text = formatBy formatCell render strip text) ∧
      (∀ t ∈ cellTexts strip text, t.length < text.length ∧ cellTexts strip t = []) ∧
      (∀ formatCell, format render strip text =
        formatBy (formatBy formatCell render strip) render strip text) ∧
      (∀ render' raw, AgreeButTables render render' →
        parseTable render strip raw = parseTable render' strip raw) ∧
      ∀ s c, ∃ n ≤ 2, ∀ k r, Turns s c k r ↔ k = n ∧ r = s.push c := by
  refine ⟨fun formatCell h => ?_, fun t ht => ?_, fun formatCell => ?_, fun render' raw h => ?_, fun s c => ?_⟩
  · rw [format_eq_formatBy]
    exact formatBy_congr render fun t ht => (h t ht).symm
  · exact ⟨length_lt_of_mem_cellTexts ht, cellTexts_of_unmarked (unmarked_of_mem_cellTexts ht)⟩
  · rw [format_eq_formatBy]
    refine formatBy_congr render fun t ht => ?_
    rw [format_eq_formatBy]
    exact formatBy_of_unmarked (unmarked_of_mem_cellTexts ht) (fun _ _ => rfl) _ _ strip
  · exact parseTable_of_agree h strip raw
  · refine ⟨if (s.take c).handedBack then 2 else 1, ?_, fun k r => turns_iff⟩
    split <;> omega

end

/-- Brackets inside of a table: they are torn apart by its pipe. -/
theorem format_nesting_torn :
    cellTexts false "[[a|@b] c]" = ["[a", "@b] c"] ∧ cellTexts false "[a" = [] ∧
      ((format keepCalls false "[[a|@b] c]").run []).run =
        ("*", [.html "a" none, .highlight "b",
          .table { cells := [["*"], ["*] c"]], width := 2, height := 1 }]) := by
  obtain ⟨-, hcells, hdeep, -, -⟩ := format_nesting keepCalls false "[[a|@b] c]"
  have htexts : cellTexts false "[[a|@b] c]" = ["[a", "@b] c"] := by decide +kernel
  refine ⟨htexts, (hcells "[a" (by simp [htexts])).2, ?_⟩
  rw [hdeep fun _ => pure "?"]
  decide +kernel

end BlitzDoc.Markup
