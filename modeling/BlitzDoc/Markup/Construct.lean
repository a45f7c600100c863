import BlitzDoc.Text.Blank
import BlitzDoc.Text.Cut
import BlitzDoc.Text.Digits
import BlitzDoc.Text.LowerCase

/-!
# Constructs of the markup dialect

What a renderer is handed: words, headings, tags and tables.
-/

namespace BlitzDoc.Markup

/-- A table of formatted cells, column by column. -/
structure Table where
  cells : List (List String) := []
  width : Nat := 0
  height : Nat := 0
deriving DecidableEq, Repr, Inhabited

/-- The text of a cell, empty outside of the table. -/
def Table.cell (t : Table) (column row : Nat) : String :=
  ((t.cells[column]?).bind (·[row]?)).getD ""

/-- One recognized construct. -/
inductive Construct where
  /-- `#word` -/
  | reference (word : String)
  /-- `@word` -/
  | highlight (word : String)
  | heading (level : Nat) (text : String)
  | italic (text : String)
  | code (text : String)
  | codeBlock (text : String)
  /-- `[name]`, `[name](data)` or `<name data>` -/
  | html (name : String) (data : Option String)
  | table (table : Table)
deriving DecidableEq, Repr, Inhabited

/-- The level that a heading tag such as `h2` names, from 1 to 6. The number may have a plus sign
and leading zeros. -/
def headingLevel? : List Char → Option Nat
  | 'h' :: rest =>
    let digits := match rest with
      | '+' :: ds => ds
      | ds => ds
    let level := Text.digitsValue digits
    if !digits.isEmpty && digits.all Char.isDigit && 1 ≤ level && level ≤ 6 then some level
    else none
  | _ => none

/-- A tag with data: typographic tags have constructs of their own. -/
def promote (tag data : String) : Construct :=
  let small := Text.lowerAscii tag
  match headingLevel? small.toList with
  | some level => .heading level data
  | none =>
    if small = "i" || small = "em" then .italic data
    else if small = "code" then .code data
    else if small = "pre" then .codeBlock data
    else .html tag (some data)

/-- `br`, `br/` and `/br`, in any mix of capitals and blanks, stand for nothing. -/
def isLineBreak (tag : String) : Bool :=
  let squeezed := Text.lowerAscii (String.ofList (tag.toList.filter fun c => !Text.isBlank c))
  squeezed = "br" || squeezed = "br/" || squeezed = "/br"

/-- A tag in angle brackets: its first word is the name, the rest its data. -/
def angleTag (inner : String) : Construct :=
  match Text.splitOnce? Text.isBlank inner.toList with
  | some (name, rest) =>
    .html (String.ofList name) (Text.nonEmpty? (Text.trim (String.ofList rest)))
  | none => .html inner none

end BlitzDoc.Markup
