import BlitzDoc.Event
import BlitzDoc.HelpEntry
import BlitzDoc.Signature
import BlitzDoc.Text.Cut

/-!
# The command index

The compiler writes one command a line: a signature, a description and a page, divided by pipes.

    Abs%( n% )|Absolute value|/mod/brl.mod/math.mod/doc/commands.html#Abs
    TList extends TObject|Linked list|/mod/brl.mod/linkedlist.mod/doc/commands.html#TList

A line is read one character at a time, and nothing is carried over to the next one. Of commands
with the same key the first is kept.
-/

namespace BlitzDoc.CommandIndex

/-- The part of a parameter that the next character belongs to. -/
inductive ParamPart where
  | name
  | type
  | default
deriving DecidableEq, Repr

/-- The part of a line that the next character belongs to. -/
inductive Part where
  | name
  | returns
  | default
  | param (part : ParamPart)
  /-- Behind the parameters, up to the first pipe. -/
  | tail
  | description
  | docs
  | anchor
deriving DecidableEq, Repr

/-- What was read of a line so far. -/
structure State where
  part : Part := .name
  name : String := ""
  returns : String := ""
  default : Option String := none
  params : List Argument := []
  hadParams : Bool := false
  description : String := ""
  docs : String := ""
  anchor : String := ""
  inString : Bool := false
  /-- Open parentheses inside a type or a default. -/
  nest : Nat := 0
deriving DecidableEq, Repr

namespace State

/-- Changes the last parameter. -/
def modifyParam (s : State) (f : Argument → Argument) : State :=
  { s with params := s.params.modify (s.params.length - 1) f }

/-- Adds a character to the type of the parameter. -/
def pushType (s : State) (c : Char) : State :=
  s.modifyParam fun p => { p with type := p.type.push c }

/-- Strings are kept in this part. -/
def keepsLiterals (s : State) : Bool :=
  s.part = .default || s.part = .param .default

/-- Adds a character to the default that is being read. -/
def pushLiteral (s : State) (c : Char) : State :=
  let grow (d : Option String) := d.map (Signature.State.pushUnlessLeading · c)
  match s.part with
  | .default => { s with default := grow s.default }
  | .param .default => s.modifyParam fun p => { p with default := grow p.default }
  | _ => s

/-- Counts parentheses. -/
def trackNest (s : State) (c : Char) : State :=
  if c = '(' then { s with nest := s.nest + 1 }
  else if c = ')' then { s with nest := s.nest - 1 }
  else s

/-- The default of the command starts. -/
def openDefault (s : State) : State :=
  { s with default := some "", part := .default }

/-- The parameters start. -/
def openParams (s : State) : State :=
  { s with hadParams := true, nest := 0, params := s.params ++ [{}], part := .param .name }

def stepParam (s : State) (part : ParamPart) (c : Char) : State :=
  if c = ',' && s.nest = 0 then { s with params := s.params ++ [{}], part := .param .name }
  else if c = ')' && s.nest = 0 then { s with part := .tail }
  else if c = '=' && part != .default then
    { s.modifyParam fun p => { p with default := some "" } with part := .param .default }
  else
    match part with
    | .name =>
      if c = ':' then { s with part := .param .type }
      else if c = ' ' || c = '\t' then s
      else if c = '(' then { s.pushType c with nest := 1, part := .param .type }
      else if (TypeName.shorthand? c).isSome then { s.pushType c with part := .param .type }
      else s.modifyParam fun p => { p with name := p.name.push c }
    | .type => (s.trackNest c).pushType c
    | .default => (s.trackNest c).pushLiteral c

/-- Takes one character of a line. -/
def step (s : State) (c : Char) : State :=
  if c = '\r' then s
  else if c = '"' && s.keepsLiterals then { s with inString := !s.inString }.pushLiteral c
  else if s.inString then s.pushLiteral c
  else
    match s.part with
    | .name =>
      if c = ':' then { s with part := .returns }
      else if c = '=' then s.openDefault
      else if c = '(' then s.openParams
      else if c = '|' then { s with part := .description }
      else if (TypeName.shorthand? c).isSome && !s.name.isEmpty then
        { s with returns := s.returns.push c, part := .returns }
      else { s with name := s.name.push c }
    | .returns =>
      if c = '=' then s.openDefault
      else if c = '(' then s.openParams
      else if c = '|' then { s with part := .description }
      else { s with returns := s.returns.push c }
    | .default => if c = '|' then { s with part := .description } else s.pushLiteral c
    | .param part => s.stepParam part c
    | .tail => if c = '|' then { s with part := .description } else s
    | .description =>
      if c = '|' then { s with part := .docs } else { s with description := s.description.push c }
    | .docs => if c = '#' then { s with part := .anchor } else { s with docs := s.docs.push c }
    | .anchor => { s with anchor := s.anchor.push c }

end State

/-! ## The end of a line -/

/-- A name as the name proper and the base that it extends. -/
def splitExtends (name : String) : String × Option String :=
  let word := " extends ".toList
  match Text.cutAt? (fun rest => word.isPrefixOf (rest.map Char.toLower)) name.toList with
  | some (before, rest) =>
    (Text.trim (String.ofList before),
      Text.nonEmpty? (Text.trim (String.ofList (rest.drop word.length))))
  | none => (name, none)

/-- The piece of a docs path is the folder of the modules. -/
def isModFolder (piece : List Char) : Bool :=
  let small := Text.lowerAscii (String.ofList piece)
  small = "mod" || small = "modules"

/-- The two folders behind the folder of the modules. -/
def docsPath? (docs : String) : Option String :=
  let pieces := (docs.toList.splitOnP fun c => c == '/' || c == '\\').filter fun p => !p.isEmpty
  match pieces.dropWhile fun p => !isModFolder p with
  | _ :: parent :: folder :: _ => some (String.ofList (parent ++ '/' :: folder))
  | _ => none

/-- The character would end a placeholder or start another one. -/
def isSpecial (c : Char) : Bool :=
  c == '$' || c == '\x7d' || c == '\\'

/-- A text as it stands inside a placeholder. -/
def escapePlaceholder (s : String) : String :=
  String.ofList (s.toList.flatMap fun c => if isSpecial c then ['\\', c] else [c])

/-- A placeholder of a snippet. -/
def placeholder (n : Nat) (body : String) : String :=
  "$\x7b" ++ toString n ++ ":" ++ escapePlaceholder body ++ "\x7d"

/-- The snippet that completion inserts. -/
def template (name : String) (kind : CompletionKind) (args : List Argument)
    (default : Option String) : String :=
  match kind with
  | .function =>
    let places := args.mapIdx fun i a => placeholder (i + 1) a.render
    name ++ "(" ++ ", ".intercalate places ++ ")"
  | .value =>
    match default with
    | some value => name ++ " = " ++ placeholder 0 value
    | none => name ++ " = $\x7b0\x7d"
  | .classType | .keyword => name

/-- The entry of a line; a line without a name has none. -/
def State.finish (s : State) : Option HelpEntry :=
  let rawName := Text.trim s.name
  if rawName.isEmpty then none
  else
    let (name, base) := splitExtends rawName
    let returns := TypeName.expand s.returns
    let default := Signature.State.finishValue s.default
    -- an empty list still opens one parameter
    let args := (s.params.map Signature.State.finishArg).filter fun a => !a.name.isEmpty
    let kind : CompletionKind :=
      if base.isSome then .classType
      else if s.hadParams then .function
      else if !returns.isEmpty || default.isSome then .value
      else .keyword
    some {
      name
      searchKey := Text.lower name
      returns, default, args, base
      description := Text.trim s.description
      docsPath := docsPath? (Text.trim s.docs)
      anchor := Text.nonEmpty? (Text.trim s.anchor)
      template := template name kind args default
      kind }

/-! ## The whole index -/

/-- What each line gives, from the middle of a line on. -/
def linesFrom : State → List Char → List (Option HelpEntry)
  | s, [] => [s.finish]
  | s, c :: cs => if c = '\n' then s.finish :: linesFrom {} cs else linesFrom (s.step c) cs

/-- What each line of an index gives. -/
def lines (text : String) : List (Option HelpEntry) :=
  linesFrom {} text.toList

/-- The entry with a key. -/
def find? (entries : List HelpEntry) (key : String) : Option HelpEntry :=
  entries.find? fun e => e.searchKey == key

/-- Adds an entry, unless its key is taken. -/
def insert (acc : List HelpEntry × List Event) (e : HelpEntry) : List HelpEntry × List Event :=
  if (find? acc.1 e.searchKey).isSome then (acc.1, acc.2 ++ [.duplicateCommand e.name])
  else (acc.1 ++ [e], acc.2)

/-- The entries of an index, and the events of reading it. -/
def parse (text : String) : List HelpEntry × List Event :=
  ((lines text).filterMap id).foldl insert ([], [])

end BlitzDoc.CommandIndex
