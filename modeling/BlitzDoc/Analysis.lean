import BlitzDoc.DocEntry

/-!
# Analyses

What was found in a source and in the files that it pulls in.
-/

namespace BlitzDoc

/-- Everything found in one file and, when followed, in its imports. -/
structure Analysis where
  moduleName : Option String := none
  /-- Quoted imports, as seen from the folder of the file. -/
  imports : List Path := []
  includes : List Path := []
  /-- Imported modules, in lower case, each once. -/
  moduleImports : List String := []
  docs : List DocEntry := []
deriving DecidableEq, Repr, Inhabited

/-- Adds a value at the end of a list, unless it is there already. -/
def addOnce {α : Type} [BEq α] (xs : List α) (x : α) : List α :=
  if xs.contains x then xs else xs ++ [x]

namespace Analysis

/-- An entry as it stands in a list where `offset` entries come before it. It takes the module of
that list, if there is one. -/
def adopt (moduleName : Option String) (offset : Nat) (e : DocEntry) : DocEntry :=
  { e with
    declaration := { e.declaration with parent := e.declaration.parent.map (· + offset) }
    module := moduleName.or e.module }

/-- Appends the entries of a followed file. Its parents are places in its own list, so they move by
the number of entries that are there already. -/
def append (into child : Analysis) : Analysis :=
  { into with
    docs := into.docs ++ child.docs.map (adopt into.moduleName into.docs.length)
    moduleImports := child.moduleImports.foldl addOnce into.moduleImports }

def toJson (a : Analysis) : Json :=
  .obj (Json.member? "module_name" (a.moduleName.map Json.str)
    ++ [("imports", .arr (a.imports.map fun p => .str p.text)),
      ("includes", .arr (a.includes.map fun p => .str p.text)),
      ("module_imports", .arr (a.moduleImports.map Json.str)),
      ("docs", .arr (a.docs.map DocEntry.toJson))])

end Analysis

end BlitzDoc
