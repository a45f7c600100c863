import BlitzDoc.Failure
import BlitzDoc.Json.Printer
import BlitzDoc.Markup.Plain
import BlitzDoc.Page.Html
import BlitzDoc.Page.Markdown

/-!
# Output formats

The formats that pages and texts can be written in, by name.
-/

namespace BlitzDoc

/-- A format for pages. -/
inductive PageFormat where
  | markdown
  | html
  | json
deriving DecidableEq, Repr

namespace PageFormat

def ofName (name : String) : Except Failure PageFormat :=
  if name = "markdown" || name = "md" then .ok markdown
  else if name = "html" then .ok html
  else if name = "json" then .ok json
  else .error (.unknownFormat name)

/-- The extension of files in the format. -/
def fileExtension : PageFormat → String
  | markdown => "md"
  | html => "html"
  | json => "json"

/-- A page as a JSON value. -/
def pageToJson (page : Page) : Json :=
  .obj ([("title", .str page.title)]
    ++ Json.member? "intro" (page.intro.map Json.str)
    ++ [("entries", .arr (page.entries.map DocEntry.toJson))])

/-- Writes a page. -/
def render (format : PageFormat) (page : Page) : String :=
  match format with
  | markdown => Page.Markdown.render page
  | html => Page.Html.render page
  | json => (pageToJson page).pretty 0 ++ "\n"

end PageFormat

/-- A format for texts of the markup dialect. -/
inductive TextFormat where
  | markdown
  | html
  | plain
deriving DecidableEq, Repr

namespace TextFormat

def ofName (name : String) : Except Failure TextFormat :=
  if name = "markdown" || name = "md" then .ok markdown
  else if name = "html" then .ok html
  else if name = "plain" || name = "text" then .ok plain
  else .error (.unknownFormat name)

/-- Writes a text; with `strip`, without its line breaks. -/
def render (format : TextFormat) (text : String) (strip : Bool) : String :=
  match format with
  | markdown => Markup.Markdown.markup text strip
  | html => Markup.Html.markup text strip
  | plain => Markup.Plain.markup text strip

end TextFormat

end BlitzDoc
