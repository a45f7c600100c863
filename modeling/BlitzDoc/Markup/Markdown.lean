import BlitzDoc.Anchor
import BlitzDoc.Markup.Format

/-!
# Markup as markdown
-/

namespace BlitzDoc.Markup

/-- Data that names a target, as opposed to a list of attributes. -/
def isLink (data : String) : Bool :=
  !data.toList.contains '='

/-- The text without line feeds at its ends. -/
def trimNewlines (s : String) : String :=
  let front := s.toList.dropWhile (· == '\n')
  String.ofList (front.reverse.dropWhile (· == '\n')).reverse

namespace Markdown

/-- The text of a cell with its pipes escaped. -/
def escapePipes (s : String) : String :=
  String.ofList (s.toList.flatMap fun c => if c = '|' then ['\\', '|'] else [c])

/-- A row between pipes. -/
def tableRow (t : Table) (row : Nat) : String :=
  "| " ++ " | ".intercalate ((List.range t.width).map fun c => escapePipes (t.cell c row)) ++ " |"

/-- A pipe table whose first row is the header. -/
def renderTable (t : Table) : String :=
  if t.width = 0 then ""
  else
    let rule := "|" ++ String.join (List.replicate t.width " --- |")
    let body := (List.range (t.height - 1)).map fun r => tableRow t (r + 1)
    "\n" ++ "\n".intercalate (tableRow t 0 :: rule :: body) ++ "\n"

/-- A construct as markdown. -/
def construct : Construct → String
  | .reference word => Anchor.link word
  | .highlight word => "**" ++ word ++ "**"
  | .heading level text => "\n" ++ String.ofList (List.replicate level '#') ++ " " ++ text ++ "\n"
  | .italic text => "*" ++ text ++ "*"
  | .code text => "`" ++ text ++ "`"
  | .codeBlock text => "\n```blitzmax\n" ++ trimNewlines text ++ "\n```\n"
  | .html name none => "<" ++ name ++ ">"
  | .html name (some data) =>
    if isLink data then "[" ++ name ++ "](" ++ data ++ ")" else "<" ++ name ++ " " ++ data ++ ">"
  | .table t => renderTable t

/-- A text of the dialect as markdown. -/
def markup (text : String) (strip : Bool) : String :=
  formatPure construct strip text

end Markdown

end BlitzDoc.Markup
