import BlitzDoc.HelpEntry
import BlitzDoc.Text.Blank
import BlitzDoc.Text.Cut

/-!
# Command pages

The compiler writes a page of tables for each module, one table a command. `scrape` finds the table
of a command and reads its title, information and example.
-/

namespace BlitzDoc.CommandPage

/-! ## Text of HTML -/

/-- The length of a line break tag at the start of a text. -/
def breakLength? : List Char → Option Nat
  | '<' :: b :: r :: rest =>
    if b.toLower = 'b' && r.toLower = 'r' then
      let after := Text.dropBlanks rest
      let blanks := rest.length - after.length
      match after with
      | '>' :: _ => some (blanks + 4)
      | '/' :: '>' :: _ => some (blanks + 5)
      | _ => none
    else none
  | _ => none

/-- The text without its tags. `tag` holds a tag that is open, which is text if it never closes. -/
def dropTagsFrom : Option (List Char) → List Char → List Char
  | none, [] => []
  | some tag, [] => tag
  | none, c :: cs => if c = '<' then dropTagsFrom (some [c]) cs else c :: dropTagsFrom none cs
  | some tag, c :: cs =>
    if c = '>' then dropTagsFrom none cs else dropTagsFrom (some (tag ++ [c])) cs

/-- The entities that are decoded, in order. The ampersand comes last, so nothing is decoded
twice. -/
def entities : List (String × String) :=
  [("&lt;", "<"), ("&gt;", ">"), ("&quot;", "\""), ("&#39;", "'"), ("&nbsp;", " "), ("&amp;", "&")]

/-- Decodes the entities of a text. -/
def decodeEntities (s : List Char) : List Char :=
  entities.foldl (fun s e => Text.replaceAll e.1.toList e.2.toList s) s

/-- The text of a piece of HTML. -/
def stripTags (s : List Char) : String :=
  let broken := Text.replaceMatches breakLength? ['\n'] 0 s
  Text.trim (String.ofList (decodeEntities (dropTagsFrom none broken)))

/-! ## Tables of commands -/

/-- The ways in which a page marks the table of a command. -/
def anchors (name : String) : List (List Char) :=
  ["id=" ++ name ++ ">", "id=\"" ++ name ++ "\"", "name=" ++ name ++ ">", "name=\"" ++ name ++ "\""].map
    String.toList

/-- The table of a command, from its mark on. -/
def block? (html : List Char) (name : String) : Option (List Char) :=
  (Text.cutAt? (fun rest => (anchors name).any (·.isPrefixOf rest)) html).map fun (_, rest) =>
    (Text.before? "</table>".toList rest).getD rest

/-- The content of the cell that opens next. -/
def cellBody? (s : List Char) : Option (List Char) :=
  (Text.after? ['>'] s).bind (Text.before? "</td>".toList)

def title? (block : List Char) : Option (List Char) :=
  (Text.from? "docright".toList block).bind cellBody?

def information? (block : List Char) : Option (List Char) :=
  ((Text.after? ">Information<".toList block).bind (Text.from? "<td".toList)).bind cellBody?

def example? (block : List Char) : Option (List Char) :=
  (((Text.from? ">Example<".toList block).bind (Text.from? "<pre".toList)).bind
    (Text.before? "</pre>".toList)).bind (Text.after? ['>'])

/-- A part of a table as text, if there is any. -/
def part (s : Option (List Char)) : Option String :=
  s.bind fun s => Text.nonEmpty? (stripTags s)

/-- The long documentation of a command; none if the page has nothing on it. -/
def scrape (html : String) (name : String) : Option LongDocs :=
  (block? html.toList name).bind fun block =>
    let docs : LongDocs :=
      { title := part (title? block)
        information := part (information? block)
        example? := part (example? block) }
    if docs = {} then none else some docs

end BlitzDoc.CommandPage
