import BlitzDoc.Declaration
import BlitzDoc.TypeName

/-!
# Signatures

Reads one signature such as `Function Add:Int( a:Int, b:Int = 0 )` into a declaration. The reader
takes one character at a time and keeps which part of the signature it belongs to:

    type → name → returns → arg ⇄ argReturn → argDefault
             ↘       ↘
              value (`Global x:Int = 5`)

Reading never fails. Characters that make no sense where they stand are dropped and noted.
-/

namespace BlitzDoc.Signature

/-- Something odd about a signature. -/
inductive Issue where
  | strayParenInValue
  | typeBeforeName
  | defaultBeforeName
  | parenBeforeName
  | tagBeforeName
  | emptyArgument
  | unbalancedParentheses
  | unterminatedString
deriving DecidableEq, Repr

def Issue.message : Issue → String
  | strayParenInValue => "unbalanced ')' in value"
  | typeBeforeName => "type before argument name"
  | defaultBeforeName => "default before argument name"
  | parenBeforeName => "unexpected '(' in argument name"
  | tagBeforeName => "type tag before argument name"
  | emptyArgument => "empty argument"
  | unbalancedParentheses => "unbalanced parentheses"
  | unterminatedString => "unterminated string"

/-- The part of a signature that the next character belongs to. -/
inductive Part where
  | type
  | name
  | returns
  /-- The value behind an equals sign. -/
  | value
  | arg
  | argReturn
  | argDefault
  | done
deriving DecidableEq, Repr

/-- What was read so far. -/
structure State where
  part : Part := .type
  /-- The first word, in small letters. -/
  keyword : String := ""
  kind : Kind := .unknown
  name : String := ""
  returns : String := ""
  value : Option String := none
  args : List Argument := []
  /-- The argument that is being read, by its place in `args`. -/
  argIndex : Nat := 0
  inString : Bool := false
  /-- The argument list is open. -/
  inArgs : Bool := false
  /-- Open parentheses inside a type or a value. -/
  nest : Nat := 0
  /-- A blank followed the name. -/
  nameEnded : Bool := false
  issues : List Issue := []
deriving DecidableEq, Repr

namespace State

/-! ## Small changes -/

/-- Adds an issue. -/
def note (s : State) (i : Issue) : State :=
  { s with issues := s.issues ++ [i] }

/-- The argument that is being read. -/
def currentArg? (s : State) : Option Argument :=
  s.args[s.argIndex]?

/-- Changes the argument that is being read. -/
def modifyArg (s : State) (f : Argument → Argument) : State :=
  { s with args := s.args.modify s.argIndex f }

/-- Adds a character to the type of the argument. -/
def pushArgType (s : State) (c : Char) : State :=
  s.modifyArg fun a => { a with type := a.type.push c }

/-- Adds a character to the default of the argument. -/
def pushArgDefault (s : State) (c : Char) : State :=
  s.modifyArg fun a => { a with default := a.default.map (·.push c) }

/-- Adds a character to a text, where a text does not start with a blank. -/
def pushUnlessLeading (text : String) (c : Char) : String :=
  if text.isEmpty && Text.isBlank c then text else text.push c

/-- Counts parentheses. -/
def trackNest (s : State) (c : Char) : State :=
  if c = '(' then { s with nest := s.nest + 1 }
  else if c = ')' then { s with nest := s.nest - 1 }
  else s

/-- The argument list starts. -/
def openArgs (s : State) : State :=
  { s with inArgs := true, argIndex := 0, nest := 0, part := .arg }

/-- The value starts. -/
def openValue (s : State) : State :=
  { s with value := some "", nest := 0, part := .value }

/-- The default of the argument starts. -/
def openDefault (s : State) : State :=
  { s.modifyArg fun a => { a with default := some "" } with part := .argDefault }

/-- The next argument starts. -/
def nextArg (s : State) : State :=
  { s with argIndex := s.argIndex + 1, part := .arg }

/-- The signature is over. -/
def stop (s : State) : State :=
  { s with inArgs := if s.part = .value then s.inArgs else false, part := .done }

/-- Makes sure that the argument exists: it is created on its first character. -/
def startArg (s : State) : State :=
  if s.args.length ≤ s.argIndex then
    let s := if s.args.length < s.argIndex then
        { s.note .emptyArgument with argIndex := s.args.length }
      else s
    { s with args := s.args ++ [{}] }
  else s

/-- Keeps a character of a string where strings are kept: in values and defaults. -/
def pushLiteral (s : State) (c : Char) : State :=
  match s.part with
  | .value => { s with value := s.value.map (·.push c) }
  | .argDefault => s.pushArgDefault c
  | _ => s

/-! ## One character, by part -/

def stepType (s : State) (c : Char) : State :=
  if Text.isBlank c then
    if s.keyword.isEmpty then s
    else { s with kind := Kind.ofKeyword s.keyword, part := .name }
  else if c = '\'' then s
  else { s with keyword := s.keyword.push c.toLower }

def stepName (s : State) (c : Char) : State :=
  if c = '\'' then s
  else if c = ' ' || c = '\t' then { s with nameEnded := !s.name.isEmpty }
  else if c = ':' then { s with part := .returns }
  else if c = '(' then s.openArgs
  else if c = '=' then s.openValue
  else if s.nameEnded || c = ',' then s.stop
  else if !s.name.isEmpty && (TypeName.shorthand? c).isSome then
    { s with returns := s.returns.push c, part := .returns }
  else { s with name := s.name.push c }

def stepReturns (s : State) (c : Char) : State :=
  if c = '\'' then s
  else if c = '(' then s.openArgs
  else if c = '=' then s.openValue
  else if c = ',' then s.stop
  else { s with returns := s.returns.push c }

def stepValue (s : State) (c : Char) : State :=
  if c = '\'' then s
  else if c = ',' && s.nest = 0 then s.stop
  else if c = ')' && s.nest = 0 then s.note .strayParenInValue
  else
    let s := s.trackNest c
    { s with value := s.value.map (pushUnlessLeading · c) }

def stepArg (s : State) (c : Char) : State :=
  let hasArg := s.currentArg?.isSome
  if c = '\'' || c = ' ' || c = '\t' then s
  else if c = ',' then s.nextArg
  else if c = ')' then s.stop
  else if c = ':' then
    if hasArg then { s with part := .argReturn } else s.note .typeBeforeName
  else if c = '=' then
    if hasArg then s.openDefault else s.note .defaultBeforeName
  else if c = '(' then
    if hasArg then { s.pushArgType c with nest := 1, part := .argReturn }
    else s.note .parenBeforeName
  else if (TypeName.shorthand? c).isSome then
    if hasArg then s.pushArgType c else s.note .tagBeforeName
  else if (c = '[' || c = ']') && s.currentArg?.any (fun a => !a.type.isEmpty) then
    s.pushArgType c
  else s.startArg.modifyArg fun a => { a with name := a.name.push c }

def stepArgReturn (s : State) (c : Char) : State :=
  if c = '\'' then s
  else if c = ',' && s.nest = 0 then s.nextArg
  else if c = ')' && s.nest = 0 then s.stop
  else if c = '=' && s.nest = 0 then s.openDefault
  else (s.trackNest c).pushArgType c

def stepArgDefault (s : State) (c : Char) : State :=
  if c = '\'' then s
  else if c = ',' && s.nest = 0 then s.nextArg
  else if c = ')' && s.nest = 0 then s.stop
  else (s.trackNest c).modifyArg fun a => { a with default := a.default.map (pushUnlessLeading · c) }

/-- Takes one character. Nothing changes once the signature is over, and inside a string every
character but the closing quote is an ordinary one. -/
def step (s : State) (c : Char) : State :=
  if s.part = .done then s
  else if c = '"' then { s with inString := !s.inString }.pushLiteral c
  else if s.inString then s.pushLiteral c
  else
    match s.part with
    | .type => s.stepType c
    | .name => s.stepName c
    | .returns => s.stepReturns c
    | .value => s.stepValue c
    | .arg => s.stepArg c
    | .argReturn => s.stepArgReturn c
    | .argDefault => s.stepArgDefault c
    | .done => s

/-- Takes characters in turn. -/
def steps (s : State) (cs : List Char) : State :=
  cs.foldl step s

/-! ## The end of the signature -/

/-- All issues, with those that only the end shows. -/
def allIssues (s : State) : List Issue :=
  s.issues
    ++ (if s.inArgs then [.unbalancedParentheses] else [])
    ++ (if s.inString then [.unterminatedString] else [])

/-- A collected value without blanks at its ends, if anything is left. -/
def finishValue (value : Option String) : Option String :=
  value.bind fun v => Text.nonEmpty? (Text.trim v)

/-- The type of an argument, `Int` when none was given. -/
def finishType (type : String) : String :=
  (Text.nonEmpty? (TypeName.expand type)).getD "Int"

/-- An argument as collected, trimmed and with its type spelled out. -/
def finishArg (a : Argument) : Argument :=
  { name := Text.trim a.name, type := finishType a.type, default := finishValue a.default }

/-- The declaration that was read. A single word without a name is its own name. -/
def finish (s : State) (raw : String) (file : Path) (line : Nat) : Declaration :=
  let named := s.part != .type
  let d : Declaration := {
    raw, file, line
    kind := if named then s.kind else Kind.ofKeyword s.keyword
    name := Text.trim (if named then s.name else raw)
    returns := TypeName.expand s.returns
    args := s.args.map finishArg
    default := finishValue s.value }
  { d with pretty := d.layout }

end State

/-- Reads a signature that stands at a line of a file. -/
def read (raw : String) (file : Path) (line : Nat) : Declaration × List Issue :=
  let s := State.steps {} raw.toList
  (s.finish raw file line, s.allIssues)

/-- The place of the character that ends the signature, counted from where the reader stands. -/
def State.stopIndex? (s : State) : List Char → Option Nat
  | [] => none
  | c :: cs =>
    if (s.step c).part = .done then some 0 else ((s.step c).stopIndex? cs).map (· + 1)

/-- The place of the character that ends a signature. -/
def stopIndex? (raw : String) : Option Nat :=
  State.stopIndex? {} raw.toList

end BlitzDoc.Signature
