import BlitzDoc.Markup.Markdown

/-!
# Markup as HTML

Words and data are escaped. Plain text is passed through, so that HTML inside a doc comment
survives.
-/

namespace BlitzDoc.Markup.Html

/-- A character as it stands in HTML text. -/
def escapeChar (c : Char) : List Char :=
  match c with
  | '&' => "&amp;".toList
  | '<' => "&lt;".toList
  | '>' => "&gt;".toList
  | '"' => "&quot;".toList
  | c => [c]

/-- A text as it stands in HTML. -/
def escape (s : String) : String :=
  String.ofList (s.toList.flatMap escapeChar)

/-- A text between the tags of an element. -/
def element (tag inner : String) : String :=
  "<" ++ tag ++ ">" ++ inner ++ "</" ++ tag ++ ">"

/-- A block of code. -/
def codeBlock (code : String) : String :=
  "<pre><code class=\"language-blitzmax\">" ++ escape code ++ "</code></pre>"

/-- A table whose first row is the header. Its cells are formatted already. -/
def renderTable (t : Table) : String :=
  let row (r : Nat) : String :=
    let cell := if r = 0 then "th" else "td"
    "<tr>" ++ String.join ((List.range t.width).map fun c => element cell (t.cell c r)) ++ "</tr>\n"
  "<table>\n" ++ String.join ((List.range t.height).map row) ++ "</table>"

/-- A construct as HTML. -/
def construct : Construct → String
  | .reference word => "<a href=\"#" ++ escape (Anchor.slug word) ++ "\">" ++ escape word ++ "</a>"
  | .highlight word => element "b" (escape word)
  | .heading level text => element ("h" ++ toString level) (escape text)
  | .italic text => element "i" (escape text)
  | .code text => element "code" (escape text)
  | .codeBlock text => codeBlock (trimNewlines text)
  | .html name none => "<" ++ name ++ ">"
  | .html name (some data) =>
    if isLink data then "<a href=\"" ++ escape data ++ "\">" ++ escape name ++ "</a>"
    else "<" ++ name ++ " " ++ data ++ ">"
  | .table t => renderTable t

/-- Makes every blank line a line break. -/
def breakBlankLines (s : String) : String :=
  String.ofList (Text.replaceAll ['\n', '\n'] "<br>\n".toList s.toList)

/-- A text of the dialect as HTML. -/
def markup (text : String) (strip : Bool) : String :=
  let formatted := formatPure construct strip text
  if strip then formatted else breakBlankLines formatted

end BlitzDoc.Markup.Html
