import BlitzDoc.Markup.Html
import BlitzDoc.Page

/-!
# Pages as HTML

A page that stands alone, with its style.
-/

namespace BlitzDoc.Page.Html

open Markup.Html (codeBlock escape markup)

/-- The rules of the style, a line each. -/
def styleRules : List String :=
  ["body \x7b font-family: system-ui, sans-serif; max-width: 48em; margin: 2em auto; padding: 0 1em; \x7d",
   "code \x7b background: #f4f4f4; padding: 0.15em 0.3em; border-radius: 3px; \x7d",
   "pre \x7b background: #f4f4f4; padding: 1em; border-radius: 5px; overflow-x: auto; \x7d",
   "table \x7b border-collapse: collapse; \x7d",
   "td, th \x7b border: 1px solid #ddd; padding: 0.25em 0.5em; \x7d",
   ".kind \x7b display: inline-block; font-size: 0.75em; padding: 0.1em 0.4em; border-radius: 3px; margin-left: 0.5em; background: #e8e8f8; \x7d"]

/-- Everything up to the heading of the page. -/
def head (title : String) : String :=
  "<!DOCTYPE html>\n<html>\n<head>\n<meta charset=\"utf-8\">\n<title>" ++ escape title ++ "</title>\n"
    ++ "<style>\n" ++ String.join (styleRules.map (· ++ "\n")) ++ "</style>\n</head>\n<body>\n"

/-- A line of the index. -/
def indexItem (name : String) : String :=
  "  <li><a href=\"#" ++ escape (Anchor.slug name) ++ "\">" ++ escape name ++ "</a></li>\n"

/-- One entry: heading, signature and texts. -/
def renderEntry (page : Page) (e : DocEntry) : String :=
  let name := page.displayName e
  let label := e.declaration.kind.label
  let kind := if label.isEmpty then "" else " <span class=\"kind\">" ++ label ++ "</span>"
  let info := if e.info.isEmpty then "" else "<p>" ++ markup e.info false ++ "</p>\n"
  let returns := match e.returns with
    | some text => "<h4>Returns</h4>\n<p>" ++ markup text false ++ "</p>\n"
    | none => ""
  let about := match e.about with
    | some text => "<div class=\"about\">" ++ markup text false ++ "</div>\n"
    | none => ""
  "<h3 id=\"" ++ escape (Anchor.slug name) ++ "\">" ++ escape name ++ kind ++ "</h3>\n"
    ++ codeBlock e.declaration.pretty ++ "\n" ++ info ++ returns ++ about

/-- A page as HTML. -/
def render (page : Page) : String :=
  let intro := match page.intro with
    | some text => "<div class=\"intro\">" ++ markup text false ++ "</div>\n"
    | none => ""
  let index :=
    if page.entries.isEmpty then ""
    else "<h2>Index</h2>\n<ul>\n"
      ++ String.join (page.entries.map fun e => indexItem (page.displayName e)) ++ "</ul>\n"
  head page.title ++ "<h1>" ++ escape page.title ++ "</h1>\n" ++ intro ++ index
    ++ String.join (page.entries.map (renderEntry page)) ++ "</body>\n</html>\n"

end BlitzDoc.Page.Html
