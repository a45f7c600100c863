import BlitzDoc.Json.Record
import BlitzDoc.Path

/-!
# Declarations

What a signature declares: its kind, name, type, arguments and value, and where it stands. Each
type has its JSON form beside it.
-/

namespace BlitzDoc

/-! ## Kinds -/

/-- The kind of a declaration, told by the first word of its signature. -/
inductive Kind where
  | function
  | method
  | type
  | enum
  | interface
  | struct
  | keyword
  | const
  | global
  | localVar
  | field
  | unknown
deriving DecidableEq, Repr, Inhabited

namespace Kind

/-- The kind that a word in small letters names. -/
def ofKeyword : String → Kind
  | "function" => function
  | "method" => method
  | "type" => type
  | "enum" => enum
  | "interface" => interface
  | "struct" => struct
  | "keyword" => keyword
  | "const" => const
  | "global" => global
  | "local" => localVar
  | "field" => field
  | _ => unknown

/-- The kind in small letters. -/
def word : Kind → String
  | function => "function"
  | method => "method"
  | type => "type"
  | enum => "enum"
  | interface => "interface"
  | struct => "struct"
  | keyword => "keyword"
  | const => "const"
  | global => "global"
  | localVar => "local"
  | field => "field"
  | unknown => "unknown"

/-- The kind as it is written in front of a name, empty when unknown. -/
def label : Kind → String
  | function => "Function"
  | method => "Method"
  | type => "Type"
  | enum => "Enum"
  | interface => "Interface"
  | struct => "Struct"
  | keyword => "Keyword"
  | const => "Const"
  | global => "Global"
  | localVar => "Local"
  | field => "Field"
  | unknown => ""

/-- Callables are written with their argument list, even an empty one. -/
def isCallable : Kind → Bool
  | function | method => true
  | _ => false

/-- Aggregates open a block that later declarations are members of. -/
def isAggregate : Kind → Bool
  | type | enum | interface | struct => true
  | _ => false

/-- The kind with a word of its own in small letters. -/
def ofWord? (s : String) : Option Kind :=
  if s = "unknown" then some unknown
  else match ofKeyword s with
    | unknown => none
    | k => some k

def toJson (k : Kind) : Json := .str k.word

def ofJson? : Json → Option Kind := Json.oneOf? ofWord?

end Kind

/-! ## Arguments -/

/-- One parameter. -/
structure Argument where
  name : String := ""
  type : String := ""
  /-- The default as written. -/
  default : Option String := none
deriving DecidableEq, Repr, Inhabited

namespace Argument

/-- The argument as `name:type`, and its default behind an equals sign. -/
def render (a : Argument) : String :=
  a.name ++ ":" ++ a.type ++
    match a.default with
    | some d => " = " ++ d
    | none => ""

def toJson (a : Argument) : Json :=
  .obj ([("name", .str a.name), ("type", .str a.type)]
    ++ Json.member? "default" (a.default.map Json.str))

def ofJson? (v : Json) : Option Argument := do
  match ← v.fields? ["name", "type", "default"] true with
  | [name, type, default] =>
    return {
      name := ← Json.required Json.str? name
      type := ← Json.required Json.str? type
      default := ← Json.optional Json.str? default }
  | _ => none

end Argument

/-! ## Declarations -/

/-- A declared construct. -/
structure Declaration where
  /-- The signature as it was found. -/
  raw : String := ""
  file : Path := ⟨""⟩
  line : Nat := 0
  kind : Kind := .unknown
  name : String := ""
  returns : String := ""
  args : List Argument := []
  /-- The value behind an equals sign. -/
  default : Option String := none
  /-- The entry of the enclosing aggregate, by its place in the list of entries. -/
  parent : Option Nat := none
  /-- The signature in its uniform layout. -/
  pretty : String := ""
deriving DecidableEq, Repr, Inhabited

namespace Declaration

/-- The signature in its uniform layout: `Function Add(a:Int, b:Int = 0)`, `Type TFoo`,
`Global x:Int = 5`. -/
def layout (d : Declaration) : String :=
  let head := if d.kind.label.isEmpty then d.name else d.kind.label ++ " " ++ d.name
  if d.kind.isCallable || !d.args.isEmpty then
    head ++ "(" ++ ", ".intercalate (d.args.map Argument.render) ++ ")"
  else if !d.kind.isAggregate && d.kind != .keyword then
    head
      ++ (if d.returns.isEmpty then "" else ":" ++ d.returns)
      ++ match d.default with
        | some value => " = " ++ value
        | none => ""
  else head

def toJson (d : Declaration) : Json :=
  .obj ([("raw", .str d.raw), ("file", .str d.file.text), ("line", .word d.line),
      ("kind", d.kind.toJson), ("name", .str d.name), ("returns", .str d.returns),
      ("args", .arr (d.args.map Argument.toJson))]
    ++ Json.member? "default" (d.default.map Json.str)
    ++ Json.member? "parent" (d.parent.map Json.word)
    ++ [("pretty", .str d.pretty)])

def ofJson? (v : Json) : Option Declaration := do
  match ← v.fields? ["raw", "file", "line", "kind", "name", "returns", "args", "default",
      "parent", "pretty"] true with
  | [raw, file, line, kind, name, returns, args, default, parent, pretty] =>
    return {
      raw := ← Json.required Json.str? raw
      file := ⟨← Json.required Json.str? file⟩
      line := ← Json.required Json.word? line
      kind := ← Json.required Kind.ofJson? kind
      name := ← Json.required Json.str? name
      returns := ← Json.defaulted "" Json.str? returns
      args := ← Json.defaulted [] (Json.list? Argument.ofJson?) args
      default := ← Json.optional Json.str? default
      parent := ← Json.optional Json.word? parent
      pretty := ← Json.defaulted "" Json.str? pretty }
  | _ => none

end Declaration

end BlitzDoc
