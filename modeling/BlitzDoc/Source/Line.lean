import BlitzDoc.Text.Blank
import BlitzDoc.Text.Cut
import BlitzDoc.Text.LowerCase
import BlitzDoc.Text.Word

/-!
# Lines of a source

What a single line of a BlitzMax source is: the start or the end of a comment block, the start or
the end of an aggregate, a module name, an import. Keywords are read without regard to capitals,
and blanks in front of them mean nothing.
-/

namespace BlitzDoc.Source.Line

/-- A letter of a text matches the small letter of a keyword. The long s and the Kelvin sign count
as the letters that they are forms of. -/
def sameLetter (small c : Char) : Bool :=
  c.toLower == small || (small == 's' && c == 'ſ') || (small == 'k' && c == '\u212a')

/-- What follows a keyword at the start of a text. -/
def afterKeyword? : List Char → List Char → Option (List Char)
  | [], cs => some cs
  | _ :: _, [] => none
  | k :: ks, c :: cs => if sameLetter k c then afterKeyword? ks cs else none

/-- A word that was just read ends here. -/
def atBoundary : List Char → Bool
  | [] => true
  | c :: _ => !Text.isWordChar c

/-- What follows a keyword that stands first on the line. -/
def after? (keyword : String) (line : List Char) : Option (List Char) :=
  afterKeyword? keyword.toList (Text.dropBlanks line)

/-- What follows a keyword and at least one blank. -/
def afterBlank? (keyword : String) (line : List Char) : Option (List Char) :=
  match after? keyword line with
  | some (c :: cs) => if Text.isBlank c then some (Text.dropBlanks cs) else none
  | _ => none

/-- What follows `Rem` on a line that starts a comment block. -/
def afterRem? (line : List Char) : Option (List Char) :=
  (after? "rem" line).filter atBoundary

/-- The line has `End`, perhaps blanks, and then `word`. -/
def isEnd (word : String) (line : List Char) : Bool :=
  match (after? "end" line).bind (after? word) with
  | some rest => atBoundary rest
  | none => false

/-- The line ends a comment block. -/
def isEndRem (line : List Char) : Bool :=
  isEnd "rem" line

/-- The keywords of aggregates. -/
def aggregates : List String :=
  ["type", "enum", "interface", "struct"]

/-- The line opens an aggregate: its keyword, blanks and a word. -/
def opensAggregate (line : List Char) : Bool :=
  aggregates.any fun word =>
    match afterBlank? word line with
    | some (c :: _) => Text.isWordChar c
    | _ => false

/-- The line ends an aggregate. -/
def closesAggregate (line : List Char) : Bool :=
  aggregates.any fun word => isEnd word line

/-- The character can stand in the name of a module. -/
def isModuleChar (c : Char) : Bool :=
  Text.isWordChar c || c == '.'

/-- The name of the module that the line declares. -/
def moduleName? (line : List Char) : Option String :=
  match (afterBlank? "module" line).map (·.takeWhile isModuleChar) with
  | some (c :: cs) => some (String.ofList (c :: cs))
  | _ => none

/-- What stands behind a keyword and blanks, if anything does. -/
def valueAfter? (keyword : String) (line : List Char) : Option (List Char) :=
  (afterBlank? keyword line).filter fun value => !value.isEmpty

/-- What the line imports. -/
def importValue? (line : List Char) : Option (List Char) :=
  valueAfter? "import" line

/-- What the line includes. -/
def includeValue? (line : List Char) : Option (List Char) :=
  valueAfter? "include" line

/-- The texts between pairs of quotes; `opened` holds the text behind an open quote. -/
def quotedFrom : Option (List Char) → List Char → List (List Char)
  | _, [] => []
  | none, c :: cs => quotedFrom (if c = '"' then some [] else none) cs
  | some inner, c :: cs =>
    if c = '"' then inner :: quotedFrom none cs else quotedFrom (some (inner ++ [c])) cs

/-- The texts between pairs of quotes. -/
def quoted (value : List Char) : List String :=
  (quotedFrom none value).map String.ofList

/-- The line starts a documentation text. -/
def startsDoc (line : List Char) : Bool :=
  match (after? "bbdoc" line).map Text.dropBlanks with
  | some (c :: _) => c == ':'
  | _ => false

/-- A line as tag and text: what stands before the first colon is a tag if it is short. -/
def splitTag? (line : List Char) : Option (String × List Char) :=
  match Text.splitOnce? (· == ':') line with
  | some (head, rest) =>
    let name := Text.dropBlanksEnd (Text.dropBlanks head)
    if !name.isEmpty && name.length < 8 then some (Text.lowerAscii (String.ofList name), rest)
    else none
  | none => none

/-- A line up to its comment; an apostrophe inside a string starts none. -/
def codeOf : Bool → List Char → Option (List Char)
  | _, [] => none
  | inString, c :: cs =>
    if c = '"' then (codeOf (!inString) cs).map (c :: ·)
    else if c = '\'' && !inString then some []
    else (codeOf inString cs).map (c :: ·)

/-- A line without the comment at its end. -/
def stripComment (line : List Char) : List Char :=
  match codeOf false line with
  | some code => Text.dropBlanksEnd code
  | none => line

/-- The pairs that may enclose a keyword. -/
def pairs : List (Char × Char) :=
  [('"', '"'), ('(', ')'), ('[', ']'), ('\x7b', '\x7d'), ('<', '>')]

/-- What stands between `opening` and `closing`, if they enclose the text. -/
def between? (opening closing : Char) : List Char → Option (List Char)
  | c :: cs => if c = opening then Text.stripEnd? [closing] cs else none
  | [] => none

/-- The text without one pair of quotes or brackets around it. -/
def stripPair (value : List Char) : List Char :=
  match pairs.findSome? fun p => between? p.1 p.2 value with
  | some inner => Text.dropBlanksEnd (Text.dropBlanks inner)
  | none => value

end BlitzDoc.Source.Line
