import BlitzDoc.Path
import BlitzDoc.Signature

/-!
# Events

What the library reports besides its results. An event is a value; its level, wording and fields
are read off it.
-/

namespace BlitzDoc

/-- How much an event matters. -/
inductive Level where
  | debug
  | info
  | warn
deriving DecidableEq, Repr

def Level.word : Level → String
  | debug => "debug"
  | info => "info"
  | warn => "warn"

/-- Something that happened during a scan or a session. -/
inductive Event where
  | malformedSignature (file : Path) (line : Nat) (raw : String) (issue : Signature.Issue)
  | entryDiscarded (file : Path) (line : Nat)
  | bodyWithoutEntry (file : Path) (line : Nat)
  | unknownTag (file : Path) (line : Nat) (tag : String)
  | endWithoutAggregate (file : Path) (line : Nat)
  | unterminatedBlock (file : Path)
  | foreignExtension (file : Path)
  | alreadyVisited (file : Path)
  | missingImport (file : Path)
  | unreadableImport (file : Path)
  | duplicateCommand (name : String)
  | noCommandPage (page : Path)
  | noEntryFile (folder : Path)
  | moduleFailed (key : String)
  | moduleScanned (key : String) (entries : Nat)
  | scanFinished (scanned reused removed : Nat)
  | noCache (cache : Path)
  | unreadableCache (cache : Path)
  | indexLoaded (entries : Nat)
deriving DecidableEq, Repr

namespace Event

def level : Event → Level
  | malformedSignature .. | bodyWithoutEntry .. | unknownTag .. | endWithoutAggregate ..
  | unterminatedBlock .. | moduleFailed .. => .warn
  | scanFinished .. | indexLoaded .. => .info
  | _ => .debug

def message : Event → String
  | malformedSignature _ _ _ issue => "malformed signature: " ++ issue.message
  | entryDiscarded .. => "comment after bbdoc block, entry discarded"
  | bodyWithoutEntry .. => "bbdoc body without an open entry"
  | unknownTag .. => "unknown bbdoc tag"
  | endWithoutAggregate .. => "End without an open aggregate"
  | unterminatedBlock .. => "unterminated Rem block"
  | foreignExtension .. => "skipping import with foreign extension"
  | alreadyVisited .. => "already visited"
  | missingImport .. => "skipping missing import"
  | unreadableImport .. => "skipping unreadable import"
  | duplicateCommand .. => "duplicate index entry ignored"
  | noCommandPage .. => "no command page"
  | noEntryFile .. => "module without entry file"
  | moduleFailed .. => "module scan failed"
  | moduleScanned .. => "module scanned"
  | scanFinished .. => "module scan finished"
  | noCache .. => "no module cache"
  | unreadableCache .. => "unreadable module cache, rescanning"
  | indexLoaded .. => "documentation index loaded"

/-- The fields of an event by name. -/
def fields : Event → List (String × Json)
  | malformedSignature file line raw _ =>
    [("file", .str file.text), ("line", .nat line), ("raw", .str raw)]
  | entryDiscarded file line | bodyWithoutEntry file line | endWithoutAggregate file line =>
    [("file", .str file.text), ("line", .nat line)]
  | unknownTag file line tag => [("file", .str file.text), ("line", .nat line), ("tag", .str tag)]
  | unterminatedBlock file | foreignExtension file | alreadyVisited file | missingImport file
  | unreadableImport file => [("file", .str file.text)]
  | duplicateCommand name => [("name", .str name)]
  | noCommandPage page => [("page", .str page.text)]
  | noEntryFile folder => [("folder", .str folder.text)]
  | moduleFailed key => [("module", .str key)]
  | moduleScanned key entries => [("module", .str key), ("entries", .nat entries)]
  | scanFinished scanned reused removed =>
    [("scanned", .nat scanned), ("reused", .nat reused), ("removed", .nat removed)]
  | noCache cache | unreadableCache cache => [("cache", .str cache.text)]
  | indexLoaded entries => [("entries", .nat entries)]

def toJson (e : Event) : Json :=
  .obj ([("level", .str e.level.word), ("message", .str e.message)] ++ e.fields)

end Event

end BlitzDoc
