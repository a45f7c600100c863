import BlitzDoc.Analysis
import BlitzDoc.Module

/-!
# Pages

A page of documentation: a title, an introduction and entries.
-/

namespace BlitzDoc

/-- One page. -/
structure Page where
  title : String
  intro : Option String := none
  entries : List DocEntry
deriving DecidableEq, Repr, Inhabited

namespace Page

/-- The page of a module. -/
def ofModule (m : Module) : Page :=
  { title := m.title, intro := m.intro, entries := m.commands }

/-- The page of an analyzed source, titled by its module if it declares one. -/
def ofAnalysis (title : String) (a : Analysis) : Page :=
  { title := a.moduleName.getD title, entries := a.docs }

/-- The name of an entry, behind the name of the aggregate that it is a member of. -/
def displayName (page : Page) (e : DocEntry) : String :=
  match e.declaration.parent.bind (page.entries[·]?) with
  | some parent => parent.declaration.name ++ "." ++ e.declaration.name
  | none => e.declaration.name

end Page

end BlitzDoc
