import BlitzDoc.Declaration

/-!
# Help entries

Entries of the command index, and the long texts that a command page adds to them.
-/

namespace BlitzDoc

/-- What an entry completes to. -/
inductive CompletionKind where
  | function
  | value
  | classType
  | keyword
deriving DecidableEq, Repr, Inhabited

namespace CompletionKind

/-- The kind in small letters. -/
def word : CompletionKind → String
  | function => "function"
  | value => "variable"
  | classType => "class"
  | keyword => "keyword"

/-- The kind with a capital. -/
def label : CompletionKind → String
  | function => "Function"
  | value => "Variable"
  | classType => "Class"
  | keyword => "Keyword"

/-- The kind that a word in small letters names. -/
def ofWord? : String → Option CompletionKind
  | "function" => some function
  | "variable" => some value
  | "class" => some classType
  | "keyword" => some keyword
  | _ => none

def toJson (k : CompletionKind) : Json := .str k.word

def ofJson? : Json → Option CompletionKind := Json.oneOf? ofWord?

end CompletionKind

/-- The long documentation of a command. -/
structure LongDocs where
  title : Option String := none
  information : Option String := none
  example? : Option String := none
deriving DecidableEq, Repr, Inhabited

namespace LongDocs

/-- A text, or null. -/
def textToJson : Option String → Json
  | some s => .str s
  | none => .null

def toJson (d : LongDocs) : Json :=
  .obj [("title", textToJson d.title), ("information", textToJson d.information),
    ("example", textToJson d.example?)]

def ofJson? (v : Json) : Option LongDocs := do
  match ← v.fields? ["title", "information", "example"] false with
  | [title, information, sample] =>
    return {
      title := ← Json.optional Json.str? title
      information := ← Json.optional Json.str? information
      example? := ← Json.optional Json.str? sample }
  | _ => none

end LongDocs

/-- One command of the index. -/
structure HelpEntry where
  name : String := ""
  searchKey : String := ""
  returns : String := ""
  default : Option String := none
  args : List Argument := []
  /-- The base of a class. -/
  base : Option String := none
  description : String := ""
  /-- The module `parent/folder` that holds the command page. -/
  docsPath : Option String := none
  /-- The anchor on the page. -/
  anchor : Option String := none
  /-- The snippet that completion inserts. -/
  template : String := ""
  kind : CompletionKind := .keyword
  long : Option LongDocs := none
  /-- The command page was asked for already. -/
  hasScraped : Bool := false
deriving DecidableEq, Repr, Inhabited

namespace HelpEntry

def toJson (e : HelpEntry) : Json :=
  .obj ([("name", .str e.name), ("searchKey", .str e.searchKey), ("returns", .str e.returns)]
    ++ Json.member? "default" (e.default.map Json.str)
    ++ [("args", .arr (e.args.map Argument.toJson))]
    ++ Json.member? "extends" (e.base.map Json.str)
    ++ [("description", .str e.description)]
    ++ Json.member? "docsPath" (e.docsPath.map Json.str)
    ++ Json.member? "section" (e.anchor.map Json.str)
    ++ [("template", .str e.template), ("kind", e.kind.toJson)]
    ++ Json.member? "long" (e.long.map LongDocs.toJson))

def ofJson? (v : Json) : Option HelpEntry := do
  match ← v.fields? ["name", "searchKey", "returns", "default", "args", "extends", "description",
      "docsPath", "section", "template", "kind", "long"] true with
  | [name, searchKey, returns, default, args, base, description, docsPath, anchor, template, kind,
      long] =>
    return {
      name := ← Json.required Json.str? name
      searchKey := ← Json.required Json.str? searchKey
      returns := ← Json.defaulted "" Json.str? returns
      default := ← Json.optional Json.str? default
      args := ← Json.defaulted [] (Json.list? Argument.ofJson?) args
      base := ← Json.optional Json.str? base
      description := ← Json.required Json.str? description
      docsPath := ← Json.optional Json.str? docsPath
      anchor := ← Json.optional Json.str? anchor
      template := ← Json.required Json.str? template
      kind := ← Json.required CompletionKind.ofJson? kind
      long := ← Json.optional LongDocs.ofJson? long }
  | _ => none

end HelpEntry

end BlitzDoc
