import BlitzDoc.CommandLine.Run

/-!
# The program

Takes the files that a run may touch from the disk, runs the command on them, and writes back what
has changed. Everything that is decided is decided by `CommandLine.run`.
-/

namespace BlitzDoc.Main

/-- Adds what lies at a place of the disk, with all below it. What cannot be read is left out. -/
partial def load (place : Path) (entry : IO.FS.DirEntry) (t : FileTree) : IO FileTree := do
  try
    let time := (← entry.path.metadata).modified
    let t := t.setTime place (time.sec.toNat * 1000 + time.nsec.toNat / 1000000)
    if ← entry.path.isDir then
      let t := { t with folders := FileTree.addFolder t.folders place.normalize }
      (← entry.path.readDir).foldlM (fun t e => load (place / e.fileName) e t) t
    else
      return t.putFile place (.ofBytes (← IO.FS.readBinFile entry.path))
  catch _ => return t

/-- The places outside of the working folder that arguments name: folders, or the folders of files
and patterns. -/
def outerPlaces (args : List String) : List Path :=
  let paths := args.map Path.mk
  let outer := paths.filter fun p => match p.components with
    | .root :: _ | .up :: _ => true
    | _ => false
  outer.flatMap fun p => [p.parent?.getD p, p]

/-- The files below the working folder and below the places that arguments name. -/
def snapshot (args : List String) : IO FileTree := do
  let here ← IO.currentDir
  let places : List Path := ⟨"."⟩ :: outerPlaces args
  places.foldlM (fun t p => load p ⟨here, p.text⟩ t) { addressing := .stepwise }

/-- All of standard input. -/
partial def readAll (input : IO.FS.Stream) (before : ByteArray) : IO ByteArray := do
  let more ← input.read 65536
  if more.isEmpty then return before else readAll input (before ++ more)

/-- Writes the files that have changed, and makes their folders. -/
def writeBack (before after : FileTree) : IO Unit := do
  for folder in after.folders do
    if !before.folders.contains folder then IO.FS.createDirAll folder.text
  for (path, content) in CommandLine.changedFiles before after do
    match content with
    | .text s =>
      if let some folder := path.parent? then
        if !folder.text.isEmpty then IO.FS.createDirAll folder.text
      IO.FS.writeFile path.text s
    | .bytes _ => pure ()

/-- Runs a command line. -/
def run (args : List String) : IO UInt32 := do
  let environment ← IO.getEnv "BMX_PATH"
  let stdin ← match CommandLine.parse? environment args with
    | some (.format ..) => Content.ofBytes <$> readAll (← IO.getStdin) ByteArray.empty
    | _ => pure (.text "")
  let tree ← snapshot (args ++ environment.toList)
  let o := CommandLine.run { args, environment, stdin, tree }
  writeBack tree o.tree
  IO.print o.stdout
  IO.eprint (if o.code = 2 then CommandLine.usage else o.stderr)
  return o.code.toUInt32

end BlitzDoc.Main

def main (args : List String) : IO UInt32 :=
  BlitzDoc.Main.run args
