import BlitzDoc.Anchor

/-!
# About texts

The long text of a doc comment marks words: `@word` is set in bold and `#word` links to a command.
In braces, `@{two words}` and `#{two words}`, a mark covers several words. `toMarkdown` writes the
marks as markdown and `toPlain` drops them.
-/

namespace BlitzDoc.About

/-- The character ends a marked word. -/
def isWordEnd (c : Char) : Bool :=
  c == ' ' || c == ',' || c == '.' || c == '\n' || c == '\r' || c == '\t'

/-- Where the reader stands. -/
inductive Place where
  | text
  /-- Right behind a marker. -/
  | marked (marker : Char)
  | word (marker : Char) (buf : String)
  | braced (marker : Char) (buf : String)

/-- The character is a marker. -/
def isMarker (c : Char) : Bool :=
  c == '@' || c == '#'

/-- A marked word as markdown. A marker without a word stays as it is. -/
def renderWord (marker : Char) (braced : Bool) (buf : String) : String :=
  let word := Text.trim buf
  if word.isEmpty then String.singleton marker ++ if braced then "\x7b\x7d" else ""
  else if marker = '@' then "**" ++ word ++ "**"
  else Anchor.link word

/-- Takes a character of plain text. -/
def startText (out : String) (c : Char) : String × Place :=
  if isMarker c then (out, .marked c) else (out.push c, .text)

/-- Takes one character; the output so far comes with the place. -/
def step : String × Place → Char → String × Place
  | (out, .text), c => startText out c
  | (out, .marked m), c =>
    if c = '\x7b' then (out, .braced m "")
    else if isWordEnd c then startText (out ++ renderWord m false "") c
    else (out, .word m (String.singleton c))
  | (out, .word m buf), c =>
    if isWordEnd c then startText (out ++ renderWord m false buf) c
    else (out, .word m (buf.push c))
  | (out, .braced m buf), c =>
    if c = '\x7d' then (out ++ renderWord m true buf, .text)
    else (out, .braced m (buf.push c))

/-- Ends a mark that is still open. -/
def finish : String × Place → String
  | (out, .text) => out
  | (out, .marked m) => out ++ renderWord m false ""
  | (out, .word m buf) => out ++ renderWord m false buf
  | (out, .braced m buf) => out ++ renderWord m true buf

/-- The text with its marks as markdown. -/
def toMarkdown (text : String) : String :=
  finish (text.toList.foldl step ("", .text))

/-- The character belongs to a mark. -/
def isControl (c : Char) : Bool :=
  c == '@' || c == '#' || c == '\x7b' || c == '\x7d'

/-- The text without the characters of its marks. -/
def toPlain (text : String) : String :=
  String.ofList (text.toList.filter fun c => !isControl c)

end BlitzDoc.About
