import BlitzDoc.Text.Blank
import BlitzDoc.Text.LowerCase
import BlitzDoc.Text.Word

/-!
# Anchors

The anchor of a heading on a page, and links to it.
-/

namespace BlitzDoc.Anchor

/-- The character is kept in an anchor. -/
def isKept (c : Char) : Bool :=
  Text.isAlphanumeric c || c == ' ' || c == '-'

/-- The anchor of a heading: in lower case, without punctuation, with hyphens for spaces. -/
def slug (heading : String) : String :=
  let kept := (Text.lower (Text.trim heading)).toList.filter isKept
  String.ofList (kept.map fun c => if c = ' ' then '-' else c)

/-- A markdown link to a heading of the same page. -/
def link (heading : String) : String :=
  "[" ++ heading ++ "](#" ++ slug heading ++ ")"

/-- A list item that links to a heading. -/
def item (heading : String) : String :=
  "* " ++ link heading

end BlitzDoc.Anchor
