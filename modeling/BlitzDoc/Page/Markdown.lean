import BlitzDoc.Markup.Markdown
import BlitzDoc.Page

/-!
# Pages as markdown
-/

namespace BlitzDoc.Page.Markdown

open Markup.Markdown (markup)

/-- One entry: heading, signature and texts. -/
def renderEntry (page : Page) (e : DocEntry) : String :=
  let signature := ["### " ++ page.displayName e ++ "\n", "```blitzmax", e.declaration.pretty, "```\n"]
  let info := if e.info.isEmpty then [] else [markup e.info false, ""]
  let returns := match e.returns with
    | some text => ["#### Returns\n", markup text false, ""]
    | none => []
  let about := match e.about with
    | some text => [Text.trim (markup text false), ""]
    | none => []
  "\n".intercalate (signature ++ info ++ returns ++ about)

/-- A page as markdown. -/
def render (page : Page) : String :=
  let intro := match page.intro with
    | some text => Text.trim (markup text false) ++ "\n\n"
    | none => ""
  let index :=
    if page.entries.isEmpty then ""
    else "## Index\n\n"
      ++ String.join (page.entries.map fun e => Anchor.item (page.displayName e) ++ "\n") ++ "\n"
  "# " ++ page.title ++ "\n\n" ++ intro ++ index
    ++ String.join (page.entries.map fun e => renderEntry page e ++ "\n")

end BlitzDoc.Page.Markdown
