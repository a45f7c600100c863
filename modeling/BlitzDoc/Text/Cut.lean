/-!
# Finding, cutting and replacing

Searches run over the list of characters, from the left, and return the parts around the first
match. Replacement is non-overlapping, also from the left.
-/

namespace BlitzDoc.Text

/-- Cuts the text before the first place where `here` holds of what follows. -/
def cutAt? (here : List Char → Bool) : List Char → Option (List Char × List Char)
  | [] => if here [] then some ([], []) else none
  | c :: cs =>
    if here (c :: cs) then some ([], c :: cs)
    else (cutAt? here cs).map fun (before, rest) => (c :: before, rest)

/-- The text from the first occurrence of `pattern` on. -/
def from? (pattern : List Char) (s : List Char) : Option (List Char) :=
  (cutAt? pattern.isPrefixOf s).map (·.2)

/-- The text before the first occurrence of `pattern`. -/
def before? (pattern : List Char) (s : List Char) : Option (List Char) :=
  (cutAt? pattern.isPrefixOf s).map (·.1)

/-- The text after the first occurrence of `pattern`. -/
def after? (pattern : List Char) (s : List Char) : Option (List Char) :=
  (from? pattern s).map (·.drop pattern.length)

/-- The text before and after the first character that `p` accepts. -/
def splitOnce? (p : Char → Bool) : List Char → Option (List Char × List Char)
  | [] => none
  | c :: cs =>
    if p c then some ([], cs)
    else (splitOnce? p cs).map fun (before, rest) => (c :: before, rest)

/-- Replaces every match by `new`. `matched s` is the length of the match at the start of `s`, and
`skip` counts the characters of the last match that are still to be passed over. -/
def replaceMatches (matched : List Char → Option Nat) (new : List Char) :
    Nat → List Char → List Char
  | _, [] => []
  | skip + 1, _ :: cs => replaceMatches matched new skip cs
  | 0, c :: cs =>
    match matched (c :: cs) with
    | some n => new ++ replaceMatches matched new (n - 1) cs
    | none => c :: replaceMatches matched new 0 cs

/-- Replaces every occurrence of the non-empty `pattern` by `new`. -/
def replaceAll (pattern new : List Char) (s : List Char) : List Char :=
  replaceMatches (fun t => if pattern.isPrefixOf t then some pattern.length else none) new 0 s

/-- `s` without `ending` at its end, if it ends so. -/
def stripEnd? (ending : List Char) (s : List Char) : Option (List Char) :=
  if ending.isSuffixOf s then some (s.take (s.length - ending.length)) else none

/-- A line without the carriage return at its end. -/
def chompReturn (line : List Char) : List Char :=
  (stripEnd? ['\r'] line).getD line

/-- The lines of a text. A line ends at a line feed, with or without a carriage return before it;
what follows the last line feed is a line of its own unless it is empty. -/
def lines (s : List Char) : List (List Char) :=
  let pieces := s.splitOn '\n'
  let last := pieces.getLast?.getD []
  pieces.dropLast.map chompReturn ++ if last.isEmpty then [] else [last]

end BlitzDoc.Text
