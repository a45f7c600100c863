import BlitzDoc.FileTree
import BlitzDoc.Text.Cut

/-!
# File patterns

Patterns name several files at once: `?` is any character, `*` any text, `[ab]` and `[a-z]` a
choice of characters, `[!ab]` any other character, and `**` any number of folders.
-/

namespace BlitzDoc.Glob

/-- A pattern that makes no sense, and where. -/
structure SyntaxError where
  position : Nat
  reason : String
deriving DecidableEq, Repr

def SyntaxError.message (e : SyntaxError) : String :=
  "Pattern syntax error near position " ++ toString e.position ++ ": " ++ e.reason

def tooManyStars : String := "wildcards are either regular `*` or recursive `**`"

def starsInName : String := "recursive wildcards must form a single path component"

def badChoice : String := "invalid range pattern"

/-- One element of a pattern. -/
inductive Token where
  | char (c : Char)
  | anyChar
  | anyText
  /-- Any number of folders. -/
  | anyFolders
  | oneOf (ranges : List (Char × Char))
  | noneOf (ranges : List (Char × Char))
deriving DecidableEq, Repr

/-! ## Reading patterns -/

/-- The ranges of a choice; a single character is a range of its own. -/
def rangesOf : List Char → List (Char × Char)
  | a :: '-' :: b :: rest => (a, b) :: rangesOf rest
  | a :: rest => (a, a) :: rangesOf rest
  | [] => []

/-- A choice behind its opening bracket, and what follows it. The first character of a choice never
closes it. -/
def choice? : List Char → Option (Token × List Char)
  | '!' :: first :: rest =>
    if rest.contains ']' then
      let inner := rest.takeWhile (· != ']')
      some (.noneOf (rangesOf (first :: inner)), rest.drop (inner.length + 1))
    else none
  | '!' :: [] => none
  | first :: rest =>
    if rest.contains ']' then
      let inner := rest.takeWhile (· != ']')
      some (.oneOf (rangesOf (first :: inner)), rest.drop (inner.length + 1))
    else none
  | [] => none

theorem length_choice_lt {cs rest : List Char} {token : Token} (h : choice? cs = some (token, rest)) :
    rest.length < cs.length := by
  unfold choice? at h
  split at h
  · split at h
    · cases h
      simp only [List.length_drop, List.length_cons]
      omega
    · cases h
  · cases h
  · split at h
    · cases h
      simp only [List.length_drop, List.length_cons]
      omega
    · cases h
  · cases h

/-- The tokens of a pattern from a position on, behind the character `before`. -/
def parseFrom (position : Nat) (before : Option Char) (cs : List Char) :
    Except SyntaxError (List Token) :=
  match cs with
  | [] => .ok []
  | '?' :: rest => (parseFrom (position + 1) (some '?') rest).map (.anyChar :: ·)
  | '*' :: '*' :: '*' :: _ => .error ⟨position + 2, tooManyStars⟩
  | '*' :: '*' :: rest =>
    if position != 0 && before != some '/' then .error ⟨position - 1, starsInName⟩
    else
      match rest with
      | [] => .ok [.anyFolders]
      | '/' :: following => (parseFrom (position + 3) (some '/') following).map (.anyFolders :: ·)
      | _ => .error ⟨position + 2, starsInName⟩
  | '*' :: rest => (parseFrom (position + 1) (some '*') rest).map (.anyText :: ·)
  | '[' :: rest =>
    match h : choice? rest with
    | some (token, following) =>
      have := length_choice_lt h
      let next := position + 1 + (rest.length - following.length)
      (parseFrom next (some ']') following).map (token :: ·)
    | none => .error ⟨position, badChoice⟩
  | c :: rest => (parseFrom (position + 1) (some c) rest).map (.char c :: ·)
termination_by cs.length
decreasing_by
  all_goals simp only [List.length_cons]
  all_goals omega

/-- The tokens of a pattern. -/
def parse (pattern : List Char) : Except SyntaxError (List Token) :=
  parseFrom 0 none pattern

/-! ## Matching names -/

/-- A text without more and more of its start. -/
def suffixes : List Char → List (List Char)
  | [] => [[]]
  | c :: cs => (c :: cs) :: suffixes cs

/-- Some range holds the character. -/
def inRanges (ranges : List (Char × Char)) (c : Char) : Bool :=
  ranges.any fun r => r.1 ≤ c && c ≤ r.2

/-- The token stands for the character. -/
def Token.accepts : Token → Char → Bool
  | .char d, c => c == d
  | .anyChar, _ => true
  | .oneOf ranges, c => inRanges ranges c
  | .noneOf ranges, c => !inRanges ranges c
  | .anyText, _ => false
  | .anyFolders, _ => false

/-- The tokens stand for the name. -/
def matchesName : List Token → List Char → Bool
  | [], cs => cs.isEmpty
  | .anyText :: ts, cs => (suffixes cs).any fun rest => matchesName ts rest
  | .anyFolders :: ts, cs => (suffixes cs).any fun rest => matchesName ts rest
  | _ :: _, [] => false
  | t :: ts, c :: cs => t.accepts c && matchesName ts cs

/-! ## Finding files -/

/-- The text that a pattern without wildcards stands for. -/
def literal? (tokens : List Token) : Option String :=
  let char? : Token → Option Char
    | .char c => some c
    | _ => none
  (tokens.mapM char?).map String.ofList

/-- The pattern stands for any number of folders. -/
def isRecursive (tokens : List Token) : Bool :=
  tokens.contains .anyFolders

/-- A name inside a folder. The working folder is not written out. -/
def inFolder (folder : Path) (name : String) : Path :=
  if folder.same ⟨"."⟩ then ⟨name⟩ else folder / name

mutual

/-- What patterns find from a folder on, a pattern for each step. Each recursion uses up a pattern
or enters a folder, so their numbers bound the budget. -/
def findFrom (t : FileTree) (onlyFolders : Bool) :
    Nat → List (List Token) → Path → List Path
  | 0, _, _ => []
  | _, [], _ => []
  | budget + 1, tokens :: rest, folder =>
    let found (p : Path) : List Path :=
      if rest.isEmpty then (if onlyFolders && !t.isFolder p then [] else [p])
      else findFrom t onlyFolders budget rest p
    match literal? tokens with
    | some name =>
      let isDots := name = "." || name = ".."
      let next := inFolder folder name
      if (if isDots then t.isFolder folder else t.exists? next) then found next else []
    | none =>
      let names := (t.list folder).toOption.getD []
      let children := names.flatMap fun name =>
        findAt t onlyFolders budget (tokens :: rest) (inFolder folder name) name
      let dots := if t.isFolder folder && tokens.head? = some (.char '.') then
          [".", ".."].filter fun name => matchesName tokens name.toList
        else []
      children ++ dots.flatMap fun name => found (folder / name)

/-- What patterns find at a file or folder. -/
def findAt (t : FileTree) (onlyFolders : Bool) :
    Nat → List (List Token) → Path → String → List Path
  | 0, _, _, _ => []
  | budget + 1, patterns, p, name =>
    let isFolder := t.isFolder p
    let recursive := (patterns.head?.map isRecursive).getD false
    let rest := if recursive then patterns.dropWhile isRecursive else patterns
    let below :=
      if recursive && isFolder then
        findFrom t onlyFolders budget ([.anyFolders] :: rest) p
      else []
    let here :=
      match rest with
      | [] => if isFolder then [p] else []
      | tokens :: more =>
        if !matchesName tokens name.toList then []
        else if more.isEmpty then (if onlyFolders && !isFolder then [] else [p])
        else findFrom t onlyFolders budget more p
    below ++ here

end

/-- The number of steps to the deepest place of a tree. -/
def depth (t : FileTree) : Nat :=
  let places := t.files.map (·.1) ++ t.folders
  places.foldl (fun n p => max n p.components.length) 0

/-- The texts between slashes; a slash at the end starts no further text. -/
def splitPattern (pattern : List Char) : List (List Char) :=
  let pieces := pattern.splitOn '/'
  if pieces.getLast?.getD [] = [] then pieces.dropLast else pieces

/-- The files and folders that a pattern stands for. -/
def expand (t : FileTree) (pattern : String) : Except SyntaxError (List Path) := do
  let cs := pattern.toList
  let _ ← parse cs
  let isAbsolute := cs.head? == some '/'
  let body := if isAbsolute then cs.drop 1 else cs
  let steps ← (splitPattern body).mapM parse
  let steps := if body.isEmpty then [[]] else steps
  let start : Path := if isAbsolute then ⟨"/"⟩ else ⟨"."⟩
  let budget := 2 * (steps.length + 1) * (depth t + 2)
  return findFrom t (cs.getLast? == some '/') budget steps start

end BlitzDoc.Glob
