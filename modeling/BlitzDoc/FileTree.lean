import BlitzDoc.Path

/-!
# File trees

A tree of files held as a value: normalized paths with their contents. A folder exists while a file
lies below it, or when it was made on purpose. Every look-up first finds the place of a path,
either by its normal form alone or step by step through folders that exist.

A change leaves what a disk shows of it. Where the tree has a clock, the time moves of what is
written and of the folder in which something new is made. What is locked takes no text, or no new
entry, and a text that finds no room is cut off: the write fails, but the file has changed. A tree
without a clock, without locks and with room for all has times that only move when they are set, and
writes that are all or nothing.

The disk has more to it that is left out here. Whatever is there can be read, and no path is a link to
another. Nobody else changes a file while an operation is under way, and one operation sees the clock at
one time. Making a folder or an empty file needs no room.
-/

namespace BlitzDoc

/-- What a file holds. -/
inductive Content where
  | text (s : String)
  /-- Bytes that are no text. -/
  | bytes (raw : List UInt8)
deriving DecidableEq, Repr, Inhabited

namespace Content

/-- Bytes as text where they are one. -/
def ofBytes (raw : ByteArray) : Content :=
  match String.fromUTF8? raw with
  | some s => .text s
  | none => .bytes raw.toList

/-- As much of a text as there is room for, in bytes. -/
def cut (s : String) (room : Nat) : Content :=
  .ofBytes (s.toUTF8.extract 0 room)

end Content

/-- Why the tree refuses an access. -/
inductive Fault where
  | notFound
  | alreadyExists
  | notFolder
  | isFolder
  | notText
  | denied
  | noSpace
deriving DecidableEq, Repr

namespace Fault

def message : Fault → String
  | notFound => "No such file or directory (os error 2)"
  | alreadyExists => "File exists (os error 17)"
  | notFolder => "Not a directory (os error 20)"
  | isFolder => "Is a directory (os error 21)"
  | notText => "stream did not contain valid UTF-8"
  | denied => "Permission denied (os error 13)"
  | noSpace => "No space left on device (os error 28)"

end Fault

/-- How a path finds its place. -/
inductive Addressing where
  /-- By its normal form, whatever the folders it passes through. -/
  | normalForm
  /-- Step by step: every folder on the way has to exist. -/
  | stepwise
deriving DecidableEq, Repr

/-- Files and folders by normalized path. -/
structure FileTree where
  files : List (Path × Content) := []
  /-- Folders that were made on purpose and may be empty. -/
  folders : List Path := []
  /-- Modification times that were set, in milliseconds. -/
  times : List (Path × Nat) := []
  addressing : Addressing := .normalForm
  /-- The time of day, if changes leave it on what they change. -/
  clock : Option Nat := none
  /-- Files that take no text, and folders in which nothing new can be made. -/
  locked : List Path := []
  /-- How many bytes of a text there is room for, if there is not room for all. -/
  room : Option Nat := none
deriving Inhabited

namespace FileTree

/-! ## Look-up by place -/

/-- The content of the file at a normalized path. -/
def fileAt? (t : FileTree) (place : Path) : Option Content :=
  t.files.lookup place

/-- The next step from the folder `place` towards `target`, if `target` lies below it. -/
def stepBelow? (place target : Path) : Option Component :=
  if place.components.isPrefixOf target.components then
    (target.components.drop place.components.length).head?
  else none

/-- Adds a name to a list in increasing order, once. -/
def insertName (name : String) : List String → List String
  | [] => [name]
  | n :: ns =>
    if name < n then name :: n :: ns
    else if name = n then n :: ns
    else n :: insertName name ns

/-- The names directly inside a folder, in increasing order. -/
def namesIn (t : FileTree) (place : Path) : List String :=
  let places := t.files.map (·.1) ++ t.folders
  (places.filterMap (stepBelow? place)).foldl (fun ns c => insertName c.text ns) []

/-- The place is outside of the tree proper: the working folder, the root or a folder above. Such
folders exist when paths are followed step by step. -/
def isOuter (place : Path) : Bool :=
  place.components.all fun c => match c with
    | .name _ => false
    | _ => true

/-- A folder lies at the place. -/
def folderAt (t : FileTree) (place : Path) : Bool :=
  (t.fileAt? place).isNone &&
    (!(t.namesIn place).isEmpty || t.folders.contains place
      || (t.addressing = .stepwise && isOuter place))

/-! ## Places -/

/-- Follows the steps of a path from a folder, given by its steps backwards. Each step starts in a
folder that exists. -/
def walk (t : FileTree) : List Component → List Component → Except Fault (List Component)
  | done, [] => .ok done
  | done, c :: rest =>
    let place := Path.ofComponents done.reverse
    if t.folderAt place then walk t (Path.foldStep done c) rest
    else if (t.fileAt? place).isSome then .error .notFolder
    else .error .notFound

/-- The place of a path. -/
def locate (t : FileTree) (p : Path) : Except Fault Path :=
  match t.addressing with
  | .normalForm => .ok p.normalize
  | .stepwise =>
    if p.text.isEmpty then .error .notFound
    else do
      let _ ← t.walk [] p.steps
      let place := p.normalize
      if p.endsInSlash && (t.fileAt? place).isSome then .error .notFolder else .ok place

/-! ## Access -/

/-- A folder lies at the path. -/
def isFolder (t : FileTree) (p : Path) : Bool :=
  match t.locate p with
  | .ok place => t.folderAt place
  | .error _ => false

/-- A file lies at the path. -/
def isFile (t : FileTree) (p : Path) : Bool :=
  match t.locate p with
  | .ok place => (t.fileAt? place).isSome
  | .error _ => false

/-- A file or a folder lies at the path. -/
def exists? (t : FileTree) (p : Path) : Bool :=
  t.isFile p || t.isFolder p

/-- The text of a file. -/
def read (t : FileTree) (p : Path) : Except Fault String := do
  let place ← t.locate p
  match t.fileAt? place with
  | some (.text s) => .ok s
  | some (.bytes _) => .error .notText
  | none => if t.folderAt place then .error .isFolder else .error .notFound

/-- The names inside a folder, in increasing order. -/
def list (t : FileTree) (p : Path) : Except Fault (List String) := do
  let place ← t.locate p
  if (t.fileAt? place).isSome then .error .notFolder
  else if t.folderAt place then .ok (t.namesIn place)
  else .error .notFound

/-- The modification time of a file or folder: the one that was set, else 1. -/
def modified (t : FileTree) (p : Path) : Except Fault Nat := do
  let place ← t.locate p
  if (t.fileAt? place).isSome || t.folderAt place then .ok ((t.times.lookup place).getD 1)
  else .error .notFound

/-! ## Change -/

/-- Adds a folder, unless it is there already or lies outside of the tree proper. -/
def addFolder (folders : List Path) (place : Path) : List Path :=
  if folders.contains place || isOuter place then folders else folders ++ [place]

/-- Puts a value under a key, in the place of an older one if there is any. -/
def put {α : Type} (key : Path) (value : α) : List (Path × α) → List (Path × α)
  | [] => [(key, value)]
  | (k, v) :: rest => if k = key then (key, value) :: rest else (k, v) :: put key value rest

/-- The tree with a file at the path. -/
def putFile (t : FileTree) (p : Path) (content : Content) : FileTree :=
  { t with files := put p.normalize content t.files }

/-- The tree with the modification time of a path set. -/
def setTime (t : FileTree) (p : Path) (millis : Nat) : FileTree :=
  { t with times := put p.normalize millis t.times }

/-- The tree without the file at the path, or without the folder and all below it. -/
def remove (t : FileTree) (p : Path) : FileTree :=
  let steps := p.normalize.components
  { t with
    files := t.files.filter fun f => !steps.isPrefixOf f.1.components
    folders := t.folders.filter fun f => !steps.isPrefixOf f.components }

/-- The tree at another time of day. -/
def later (t : FileTree) (now : Nat) : FileTree :=
  { t with clock := t.clock.map fun _ => now }

/-- The folder around a place. -/
def outer (place : Path) : Path :=
  Path.ofComponents place.components.dropLast

/-- The tree after a change at a place, whose time it moves. -/
def touch (t : FileTree) (place : Path) : FileTree :=
  { t with
    times :=
      match t.clock with
      | none => t.times
      | some now => put place now t.times }

/-- The tree with something new at a place. It is not locked, and the time of the folder around it
moves. -/
def enter (t : FileTree) (place : Path) : FileTree :=
  FileTree.touch { t with locked := t.locked.filter (· != place) } (outer place)

/-- Nothing can be made or written at a place: there is a file that is locked, or the folder around it
is. -/
def isLocked (t : FileTree) (place : Path) : Bool :=
  t.locked.contains (if (t.fileAt? place).isSome then place else outer place)

/-- There is room for all of a text. -/
def hasRoom (t : FileTree) (s : String) : Bool :=
  t.room.all (s.utf8ByteSize ≤ ·)

/-- What an attempt to change a tree leaves behind: the tree, and the fault that ended it. What was
changed before the fault stays. -/
structure Change where
  tree : FileTree
  fault : Option Fault := none

/-- Makes the folder at a path, in a folder that exists. -/
def makeFolder (t : FileTree) (p : Path) : Except Fault FileTree := do
  if p.text.isEmpty then throw .notFound
  let _ ← t.walk [] p.steps
  let place := p.normalize
  match p.steps.getLast? with
  | some (.name _) =>
    if (t.fileAt? place).isSome || t.folderAt place then .error .alreadyExists
    else if t.isLocked place then .error .denied
    else
      let made := { t with folders := addFolder t.folders place }
      .ok ((made.enter place).touch place)
  | _ => .error .alreadyExists

/-- Makes sure of a folder, given the folders that lead to it: they are made where the folder is
refused for want of them. A folder that is there already is as good as a new one. -/
def ensureFolder (t : FileTree) : List Path → Change
  | [] => { tree := t }
  | p :: outer =>
    let settle (t : FileTree) (e : Fault) : Change :=
      if t.isFolder p then { tree := t } else { tree := t, fault := some e }
    match t.makeFolder p with
    | .ok tree => { tree }
    | .error .notFound =>
      let made := t.ensureFolder outer
      if made.fault.isSome then made
      else
        match made.tree.makeFolder p with
        | .ok tree => { tree }
        | .error e => settle made.tree e
    | .error e => settle t e

/-- Makes the folder at a path and those that lead to it. -/
def makeFolders (t : FileTree) (p : Path) : Change :=
  t.ensureFolder p.ancestors

/-- Whether the file at a path can be opened to be written. A tree that is followed step by step needs
the folder of the file, and takes no file behind a slash. -/
def checkWrite (t : FileTree) (p : Path) : Except Fault Unit := do
  match t.addressing with
  | .normalForm => pure ()
  | .stepwise =>
    if p.text.isEmpty then throw .notFound
    let _ ← t.walk [] p.steps
    if p.endsInSlash then throw .isFolder
  if t.folderAt p.normalize then .error .isFolder
  else if t.isLocked p.normalize then .error .denied
  else .ok ()

/-- The tree with a content in the file at a path, which is made if it is not there. -/
def fillWith (t : FileTree) (p : Path) (content : Content) : FileTree :=
  let place := p.normalize
  let opened := if (t.fileAt? place).isSome then t else t.enter place
  (opened.putFile p content).touch place

/-- Writes a text into the file at a path, as far as there is room for it. -/
def fill (t : FileTree) (p : Path) (s : String) : Change :=
  if t.hasRoom s then { tree := t.fillWith p (.text s) }
  else { tree := t.fillWith p (.cut s (t.room.getD 0)), fault := some .noSpace }

/-- Writes a text into the file at a path. -/
def writeHere (t : FileTree) (p : Path) (s : String) : Change :=
  match t.checkWrite p with
  | .error e => { tree := t, fault := some e }
  | .ok () => t.fill p s

/-- Makes the folders that lead to a path. A tree that goes by normal forms has them without
further ado. -/
def makeWay (t : FileTree) (p : Path) : Change :=
  match t.addressing, p.parent? with
  | .stepwise, some folder => t.makeFolders folder
  | _, _ => { tree := t }

/-- Writes a text into the file at a path and makes the folders that lead to it. -/
def write (t : FileTree) (p : Path) (s : String) : Change :=
  let made := t.makeWay p
  if made.fault.isSome then made else made.tree.writeHere p s

end FileTree

end BlitzDoc
