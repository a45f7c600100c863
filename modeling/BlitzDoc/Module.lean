import BlitzDoc.DocEntry
import BlitzDoc.Text.Cut

/-!
# Modules

A module folder of the toolchain and the documentation found in it. Modules are kept under the key
`parent/folder`, in the cache file as an array of key and module pairs.
-/

namespace BlitzDoc

/-- A module folder and its documentation. -/
structure Module where
  /-- The outer folder, such as `brl.mod`. -/
  parent : String := ""
  /-- The module's own folder, such as `math.mod`. -/
  folderName : String := ""
  /-- The entry file, by its name in the folder. -/
  file : String := ""
  /-- The later of the modification times of folder and entry file. -/
  lastModified : Nat := 0
  name : Option String := none
  commands : List DocEntry := []
  /-- The introduction, in the markup dialect. -/
  intro : Option String := none
  /-- The rendered page, once it was asked for. -/
  html : Option String := none
deriving DecidableEq, Repr, Inhabited

namespace Module

/-- The key of a module folder. -/
def keyOf (parent folder : String) : String :=
  parent ++ "/" ++ folder

def key (m : Module) : String :=
  keyOf m.parent m.folderName

/-- The module was scanned at another modification time. -/
def isStale (m : Module) (lastModified : Nat) : Bool :=
  m.lastModified != lastModified

/-- Drops every leading copy of `pattern`; `budget` bounds how many. -/
def dropCopies (pattern : List Char) : Nat → List Char → List Char
  | 0, cs => cs
  | budget + 1, cs =>
    if pattern.isPrefixOf cs then dropCopies pattern budget (cs.drop pattern.length) else cs

/-- A folder name without the endings `.mod`. -/
def bareName (folder : String) : String :=
  String.ofList (dropCopies ['d', 'o', 'm', '.'] folder.length folder.toList.reverse).reverse

/-- The declared name, else the names of the two folders. -/
def title (m : Module) : String :=
  match m.name with
  | some name => name
  | none => bareName m.parent ++ "." ++ bareName m.folderName

def toJson (m : Module) : Json :=
  .obj ([("parent", .str m.parent), ("folderName", .str m.folderName), ("file", .str m.file),
      ("lastModified", .word m.lastModified)]
    ++ Json.member? "name" (m.name.map Json.str)
    ++ (if m.commands.isEmpty then [] else [("commands", .arr (m.commands.map DocEntry.toJson))])
    ++ Json.member? "intro" (m.intro.map Json.str))

def ofJson? (v : Json) : Option Module := do
  match ← v.fields? ["parent", "folderName", "file", "lastModified", "name", "commands", "intro"]
      true with
  | [parent, folderName, file, lastModified, name, commands, intro] =>
    return {
      parent := ← Json.required Json.str? parent
      folderName := ← Json.required Json.str? folderName
      file := ← Json.required Json.str? file
      lastModified := ← Json.required Json.word? lastModified
      name := ← Json.optional Json.str? name
      commands := ← Json.defaulted [] (Json.list? DocEntry.ofJson?) commands
      intro := ← Json.optional Json.str? intro }
  | _ => none

end Module

/-! ## The cache -/

namespace Cache

/-- A key and its module as a pair. -/
def pairToJson (entry : String × Module) : Json :=
  .arr [.str entry.1, entry.2.toJson]

def pairOfJson? : Json → Option (String × Module)
  | .arr [key, m] => do return (← key.str?, ← Module.ofJson? m)
  | _ => none

def toJson (entries : List (String × Module)) : Json :=
  .arr (entries.map pairToJson)

def ofJson? : Json → Option (List (String × Module)) :=
  Json.list? pairOfJson?

end Cache

end BlitzDoc
