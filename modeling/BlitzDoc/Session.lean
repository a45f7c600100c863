import BlitzDoc.Catalog
import BlitzDoc.CommandIndex
import BlitzDoc.CommandPage
import BlitzDoc.Imports
import BlitzDoc.Json.Printer
import BlitzDoc.Json.Reader
import BlitzDoc.Page.Html

/-!
# Sessions

A session holds the modules of an installation and the entries of its command index. A rescan walks
the module folders, keeps the modules whose modification time has not moved, scans the others, and
writes the module cache.

Operations are functions: they take the session and the file tree, and return both with their
result and the events on the way.
-/

namespace BlitzDoc

/-- The modules and the command index of an installation. -/
structure Session where
  config : Config
  modules : Catalog Module := []
  help : List HelpEntry := []
deriving DecidableEq, Repr, Inhabited

namespace Session

/-- The outcome of a rescan, in numbers of modules. -/
structure Report where
  scanned : Nat := 0
  reused : Nat := 0
  removed : Nat := 0
deriving DecidableEq, Repr, Inhabited

/-- The outcome of an operation. -/
structure Outcome (α : Type) where
  result : α
  session : Session
  tree : FileTree
  log : List Event := []

/-! ## Module folders -/

/-- The name is that of a module folder. -/
def isModFolder (name : String) : Bool :=
  ".mod".toList.isSuffixOf (Text.lowerAscii name).toList

/-- The name of a module folder without its ending. -/
def modStem (name : String) : String :=
  String.ofList (name.toList.take (name.length - 4))

/-- The folder of a module. -/
def folderOf (config : Config) (parent folder : String) : Path :=
  config.modFolder / parent / folder

/-- The name of the entry file of a module. -/
def entryName (config : Config) (folder : String) : String :=
  modStem folder ++ "." ++ config.extension

/-- The entry file of a module. -/
def entryOf (config : Config) (parent folder : String) : Path :=
  folderOf config parent folder / entryName config folder

/-- The later of the modification times of the folder and the entry file. -/
def lastModified (t : FileTree) (config : Config) (parent folder : String) : Nat :=
  let time (p : Path) : Nat := (t.modified p).toOption.getD 0
  max (time (folderOf config parent folder)) (time (entryOf config parent folder))

/-- The name is that of an introduction. -/
def isIntro (name : String) : Bool :=
  "intro.".toList.isPrefixOf (Text.lowerAscii name).toList

/-- The introduction of a module. -/
def readIntro (t : FileTree) (folder : Path) : Option String := do
  let docs := folder / "doc"
  let name ← (← (t.list docs).toOption).find? isIntro
  (t.read (docs / name)).toOption

/-- How the entry file of a module is scanned. -/
def moduleOptions (config : Config) : Source.Options :=
  { isModuleEntry := true, followImports := true, extension := config.extension }

/-- Scans a module. -/
def scanModule (t : FileTree) (config : Config) (parent folder : String) :
    Except Failure (Module × List Event) := do
  let o ← Imports.analyzeFile t (entryOf config parent folder) (moduleOptions config)
  let m : Module := {
    parent, folderName := folder
    file := entryName config folder
    lastModified := lastModified t config parent folder
    name := o.analysis.moduleName
    commands := o.analysis.docs
    intro := readIntro t (folderOf config parent folder) }
  return (m, o.log ++ [.moduleScanned m.key m.commands.length])

/-- The module folders of an installation, in order. -/
def moduleFolders (t : FileTree) (config : Config) (parents : List String) :
    List (String × String) :=
  (parents.filter isModFolder).flatMap fun parent =>
    let folders := (t.list (config.modFolder / parent)).toOption.getD []
    (folders.filter isModFolder).map fun folder => (parent, folder)

/-! ## Rescans -/

/-- How far a rescan has come. -/
structure Progress where
  modules : Catalog Module
  /-- The keys of the folders with an entry file. -/
  seen : List String := []
  scanned : Nat := 0
  reused : Nat := 0
  log : List Event := []
deriving DecidableEq, Repr

/-- The module under a key can be kept as it is. -/
def isFresh (modules : Catalog Module) (key : String) (time : Nat) : Bool :=
  match modules.find? key with
  | some m => !m.isStale time
  | none => false

/-- Takes one module folder. -/
def visit (t : FileTree) (config : Config) (force : Bool) (p : Progress)
    (folder : String × String) : Progress :=
  let (parent, folder) := folder
  if !t.exists? (entryOf config parent folder) then
    { p with log := p.log ++ [.noEntryFile (folderOf config parent folder)] }
  else
    let key := Module.keyOf parent folder
    let p := { p with seen := p.seen ++ [key] }
    if !force && isFresh p.modules key (lastModified t config parent folder) then
      { p with reused := p.reused + 1 }
    else
      match scanModule t config parent folder with
      | .ok (m, events) =>
        { p with
          modules := p.modules.insert key m
          scanned := p.scanned + 1
          log := p.log ++ events }
      | .error _ =>
        { p with modules := p.modules.erase key, log := p.log ++ [.moduleFailed key] }

/-- The text of the module cache. -/
def cacheText (modules : Catalog Module) : String :=
  (Cache.toJson modules).compact

/-- Walks the module folders. Modules that have not changed are kept, unless `force`. -/
def rescan (s : Session) (t : FileTree) (force : Bool) : Outcome (Except Failure Report) :=
  let folder := s.config.modFolder
  if !t.isFolder folder then { result := .error (.sourceNotFound folder), session := s, tree := t }
  else
    match t.list folder with
    | .error fault => { result := .error (.access folder fault), session := s, tree := t }
    | .ok parents =>
      let start : Progress := { modules := s.modules }
      let p := (moduleFolders t s.config parents).foldl (visit t s.config force) start
      let kept : Catalog Module := p.modules.filter fun e => p.seen.contains e.1
      let report : Report :=
        { scanned := p.scanned, reused := p.reused, removed := p.modules.length - kept.length }
      let session := { s with modules := kept }
      let written := t.write s.config.cacheFile (cacheText kept)
      match written.fault with
      | some fault =>
        { result := .error (.access s.config.cacheFile fault), session, tree := written.tree
          log := p.log }
      | none =>
        let done := Event.scanFinished report.scanned report.reused report.removed
        { result := .ok report, session, tree := written.tree, log := p.log ++ [done] }

/-- Reads the module cache. One that is no cache counts as empty. -/
def readCache (s : Session) (t : FileTree) : Session × List Event :=
  let path := s.config.cacheFile
  match t.read path with
  | .error _ => (s, [.noCache path])
  | .ok text =>
    match (Json.read? text).bind Cache.ofJson? with
    | some entries => ({ s with modules := Catalog.ofList entries }, [])
    | none => ({ s with modules := [] }, [.unreadableCache path])

/-- Reads the module cache and brings it up to date. -/
def load (s : Session) (t : FileTree) : Outcome (Except Failure Report) :=
  let (s, events) := s.readCache t
  let o := s.rescan t false
  { o with log := events ++ o.log }

/-- Forgets the modules and the command index. -/
def clear (s : Session) : Session :=
  { s with modules := [], help := [] }

/-! ## Modules -/

/-- The module with a key. -/
def module? (s : Session) (key : String) : Option Module :=
  s.modules.find? key

/-- The page of a module, rendered on first use and kept until the module is scanned again. -/
def moduleHtml (s : Session) (key : String) : Option String × Session :=
  match s.modules.find? key with
  | none => (none, s)
  | some m =>
    let html := m.html.getD (Page.Html.render (Page.ofModule m))
    (some html, { s with modules := s.modules.insert key { m with html := some html } })

/-- The entries of all modules with a search key. -/
def find (s : Session) (key : String) : List DocEntry :=
  (s.modules.values.flatMap (·.commands)).filter fun e => e.searchKey == Text.lower key

/-! ## The command index -/

/-- Reads the command index. -/
def loadIndex (s : Session) (t : FileTree) : Outcome (Except Failure Nat) :=
  let path := s.config.indexFile
  if !t.exists? path then { result := .error (.indexNotBuilt path), session := s, tree := t }
  else
    match t.read path with
    | .error fault => { result := .error (.access path fault), session := s, tree := t }
    | .ok text =>
      let (entries, events) := CommandIndex.parse text
      { result := .ok entries.length
        session := { s with help := entries }
        tree := t
        log := events ++ [.indexLoaded entries.length] }

/-- The entry of a command, in any mix of capitals. -/
def helpEntry? (s : Session) (key : String) : Option HelpEntry :=
  CommandIndex.find? s.help (Text.lower key)

/-- Reads the long documentation of a command from its page. -/
def fetchDocs (t : FileTree) (config : Config) (e : HelpEntry) : Option LongDocs × List Event :=
  match e.docsPath with
  | none => (none, [])
  | some docsPath =>
    let page := config.commandsPage docsPath
    match t.read page with
    | .ok html => (CommandPage.scrape html e.name, [])
    | .error _ => (none, [.noCommandPage page])

/-- The long documentation of a command. Its page is read on first use, and the answer is kept, even
if there was none. -/
def helpDocs (s : Session) (t : FileTree) (key : String) : Outcome (Option LongDocs) :=
  match s.helpEntry? key with
  | none => { result := none, session := s, tree := t }
  | some e =>
    if e.hasScraped then { result := e.long, session := s, tree := t }
    else
      let (long, log) := fetchDocs t s.config e
      let update (h : HelpEntry) : HelpEntry :=
        if h.searchKey == e.searchKey then { h with long, hasScraped := true } else h
      { result := long, session := { s with help := s.help.map update }, tree := t, log }

end Session

end BlitzDoc
