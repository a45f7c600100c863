import BlitzDoc.Markup.Markdown

/-!
# Markup as plain text
-/

namespace BlitzDoc.Markup.Plain

/-- Rows as lines, with tabs between the cells. -/
def renderTable (t : Table) : String :=
  let row (r : Nat) : String := "\t".intercalate ((List.range t.width).map fun c => t.cell c r)
  "\n" ++ "\n".intercalate ((List.range t.height).map row) ++ "\n"

/-- A construct as plain text: links keep their label, and tags vanish. -/
def construct : Construct → String
  | .reference word => word
  | .highlight word => word
  | .heading _ text => "\n" ++ text ++ "\n"
  | .italic text => text
  | .code text => text
  | .codeBlock text => "\n" ++ trimNewlines text ++ "\n"
  | .html name (some _) => name
  | .html _ none => ""
  | .table t => renderTable t

/-- A text of the dialect as plain text. -/
def markup (text : String) (strip : Bool) : String :=
  formatPure construct strip text

end BlitzDoc.Markup.Plain
