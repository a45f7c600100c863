import BlitzDoc.Declaration

/-!
# Documentation entries

A doc comment bound to the declaration that follows it.
-/

namespace BlitzDoc

/-- A doc comment and what it documents. -/
structure DocEntry where
  /-- The summary. -/
  info : String := ""
  /-- The long text as written, in the markup dialect. -/
  about : Option String := none
  /-- The long text with its words marked up as markdown. -/
  aboutMarkdown : Option String := none
  /-- The long text without its markers. -/
  aboutPlain : Option String := none
  returns : Option String := none
  declaration : Declaration := {}
  /-- The name in lower case, for look-ups. -/
  searchKey : String := ""
  module : Option String := none
deriving DecidableEq, Repr, Inhabited

namespace DocEntry

def toJson (e : DocEntry) : Json :=
  .obj ([("info", .str e.info)]
    ++ Json.member? "about" (e.about.map Json.str)
    ++ Json.member? "aboutMarkdown" (e.aboutMarkdown.map Json.str)
    ++ Json.member? "aboutPlain" (e.aboutPlain.map Json.str)
    ++ Json.member? "returns" (e.returns.map Json.str)
    ++ [("declaration", e.declaration.toJson), ("searchKey", .str e.searchKey)]
    ++ Json.member? "module" (e.module.map Json.str))

def ofJson? (v : Json) : Option DocEntry := do
  match ← v.fields? ["info", "about", "aboutMarkdown", "aboutPlain", "returns", "declaration",
      "searchKey", "module"] true with
  | [info, about, aboutMarkdown, aboutPlain, returns, declaration, searchKey, module] =>
    return {
      info := ← Json.required Json.str? info
      about := ← Json.optional Json.str? about
      aboutMarkdown := ← Json.optional Json.str? aboutMarkdown
      aboutPlain := ← Json.optional Json.str? aboutPlain
      returns := ← Json.optional Json.str? returns
      declaration := ← Json.required Declaration.ofJson? declaration
      searchKey := ← Json.required Json.str? searchKey
      module := ← Json.optional Json.str? module }
  | _ => none

end DocEntry

end BlitzDoc
