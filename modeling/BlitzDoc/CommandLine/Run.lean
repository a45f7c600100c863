import BlitzDoc.CommandLine.Arguments
import BlitzDoc.Glob
import BlitzDoc.Output
import BlitzDoc.Session

/-!
# Running commands

A run reads a file tree and standard input, and ends with an exit code, texts for the two output
streams and the tree as it is then. What was printed before a failure stays printed.
-/

namespace BlitzDoc.CommandLine

/-- What a run is given. -/
structure Input where
  args : List String
  /-- The installation that the environment names. -/
  environment : Option String := none
  stdin : Content := .text ""
  tree : FileTree

/-- How a run ends. -/
structure Outcome where
  code : Nat
  stdout : String := ""
  stderr : String := ""
  tree : FileTree

/-! ## Error reports -/

/-- What went wrong, from the outside to the inside. -/
abbrev Chain := List String

/-- The causes of a failure, itself first. A refused access has its fault as a further cause. -/
def chainOf (e : Failure) : Chain :=
  match e with
  | .access _ fault => [e.message, fault.message]
  | _ => [e.message]

/-- A cause behind its margin, with further lines below. -/
def indent (first next cause : String) : String :=
  first ++ ("\n" ++ next).intercalate ((cause.toList.splitOn '\n').map String.ofList) ++ "\n"

/-- The causes of a failure as lines, numbered if there are several. -/
def causeLines : List String → String
  | [] => ""
  | [cause] => "\nCaused by:\n" ++ indent "    " "    " cause
  | causes =>
    let margin (n : Nat) : String :=
      let digits := toString n
      String.ofList (List.replicate (5 - digits.length) ' ') ++ digits ++ ": "
    "\nCaused by:\n" ++ String.join (causes.mapIdx fun n cause => indent (margin n) "       " cause)

/-- The report of a failure. -/
def report : Chain → String
  | [] => ""
  | outermost :: causes => "Error: " ++ outermost ++ "\n" ++ causeLines causes

/-! ## Commands -/

/-- A run that prints, changes files and may fail. -/
structure Progress where
  stdout : String := ""
  tree : FileTree
  failure : Option Chain := none

namespace Progress

def print (p : Progress) (s : String) : Progress :=
  { p with stdout := p.stdout ++ s }

def fail (p : Progress) (chain : Chain) : Progress :=
  { p with failure := some chain }

/-- Goes on, unless the run has failed. -/
def andThen (p : Progress) (next : Progress → Progress) : Progress :=
  if p.failure.isSome then p else next p

end Progress

/-- The source files that an argument names: a file, the sources in a folder, or a pattern. -/
def sourcesOf (t : FileTree) (extension : String) (arg : String) : Except Chain (List Path) :=
  let p : Path := ⟨arg⟩
  if t.isFile p then .ok [p]
  else if t.isFolder p then
    let inside := ((t.list p).toOption.getD []).map (p / ·)
    .ok (inside.filter fun f => t.isFile f && f.hasExtension extension)
  else
    match Glob.expand t arg with
    | .ok found => .ok (found.filter t.isFile)
    | .error e => .error ["invalid glob pattern: " ++ arg, e.message]

/-- Drops a path that takes the same steps as the one before it. -/
def dropRepeats : List Path → List Path
  | p :: q :: rest => if p.same q then dropRepeats (p :: rest) else p :: dropRepeats (q :: rest)
  | ps => ps
termination_by ps => ps.length

/-- The source files that arguments name, in order and each once. -/
def inputFiles (t : FileTree) (extension : String) (args : List String) :
    Except Chain (List Path) := do
  let found ← args.mapM (sourcesOf t extension)
  return dropRepeats (found.flatten.mergeSort Path.le)

/-- Documents one source file. -/
def analyzeOne (options : Source.Options) (format : PageFormat) (output : Option Path)
    (p : Progress) (file : Path) : Progress :=
  match Imports.analyzeFile p.tree file options with
  | .error e => p.fail (("failed to analyze " ++ file.text) :: chainOf e)
  | .ok o =>
    let rendered := format.render (Page.ofAnalysis file.stem o.analysis)
    match output with
    | none => p.print rendered
    | some folder =>
      -- files with nothing to show for are skipped
      if o.analysis.docs.isEmpty then p
      else
        let target := folder / (file.stem ++ "." ++ format.fileExtension)
        let written := p.tree.writeHere target rendered
        let p := { p with tree := written.tree }
        match written.fault with
        | none => p
        | some fault => p.fail ["failed to write " ++ target.text, fault.message]

/-- Makes the output folder. -/
def makeOutput (output : Option Path) (p : Progress) : Progress :=
  match output with
  | none => p
  | some folder =>
    let made := p.tree.makeFolders folder
    let p := { p with tree := made.tree }
    match made.fault with
    | none => p
    | some fault =>
      p.fail ["failed to create output directory: " ++ folder.text, fault.message]

def runAnalyze (files : List String) (options : Source.Options) (format : String)
    (output : Option Path) (p : Progress) : Progress :=
  match PageFormat.ofName format with
  | .error e => p.fail (chainOf e)
  | .ok format =>
    match inputFiles p.tree options.extension files with
    | .error chain => p.fail chain
    | .ok inputs =>
      inputs.foldl (fun p file => p.andThen (analyzeOne options format output · file))
        (makeOutput output p)

def runFormat (stdin : Content) (strip : Bool) (format : String) (p : Progress) : Progress :=
  match stdin with
  | .bytes _ => p.fail ["failed to read stdin", Fault.notText.message]
  | .text s =>
    match TextFormat.ofName format with
    | .error e => p.fail (chainOf e)
    | .ok format => p.print (format.render s strip)

/-- A module as a line. -/
def moduleLine (m : Module) : String :=
  m.key ++ "\t" ++ m.title ++ "\t" ++ toString m.commands.length ++ "\n"

def runScan (toolchain : Toolchain) (force : Bool) (p : Progress) : Progress :=
  let session : Session := { config := toolchain.config }
  let o := if force then session.rescan p.tree true else session.load p.tree
  let p := { p with tree := o.tree }
  match o.result with
  | .error e => p.fail ("module scan failed" :: chainOf e)
  | .ok r =>
    p.print ("scanned " ++ toString r.scanned ++ ", reused " ++ toString r.reused
      ++ ", removed " ++ toString r.removed ++ "\n"
      ++ String.join (o.session.modules.values.map moduleLine))

/-- An entry of the index as lines. -/
def entryLines (e : HelpEntry) : String :=
  e.name ++ "\n  kind: " ++ e.kind.label ++ "\n"
    ++ (if e.returns.isEmpty then "" else "  returns: " ++ e.returns ++ "\n")
    ++ (match e.base with
      | some base => "  extends: " ++ base ++ "\n"
      | none => "")
    ++ "  template: " ++ e.template ++ "\n"
    ++ (if e.description.isEmpty then "" else "  " ++ e.description ++ "\n")

/-- The parts of a long documentation as lines. -/
def longLines (d : LongDocs) : String :=
  let part (label : String) : Option String → String
    | some s => "\n[" ++ label ++ "]\n" ++ s ++ "\n"
    | none => ""
  part "title" d.title ++ part "information" d.information ++ part "example" d.example?

def runIndex (toolchain : Toolchain) (query : Option String) (docs : Bool) (p : Progress) :
    Progress :=
  let session : Session := { config := toolchain.config }
  let o := session.loadIndex p.tree
  match o.result, query with
  | .error (.indexNotBuilt path), _ =>
    p.fail ["documentation index not built (" ++ path.text
      ++ "); rebuild the docs with the BlitzMax toolchain"]
  | .error e, _ => p.fail (chainOf e)
  | .ok count, none => p.print (toString count ++ " commands\n")
  | .ok _, some query =>
    match o.session.helpEntry? query with
    | none => p.fail ["no such command: " ++ query]
    | some e =>
      let long := if docs then (o.session.helpDocs p.tree query).result else none
      p.print (entryLines e ++ (long.map longLines).getD "")

/-- Runs a command. -/
def execute (stdin : Content) (command : Command) (p : Progress) : Progress :=
  match command with
  | .analyze files followImports isModuleEntry format output extension =>
    runAnalyze files { isModuleEntry, followImports, extension } format output p
  | .format strip format => runFormat stdin strip format p
  | .scan toolchain force => runScan toolchain force p
  | .index toolchain query docs => runIndex toolchain query docs p

/-- Runs the program. Arguments that make no sense end it with code 2. -/
def run (i : Input) : Outcome :=
  match parse? i.environment i.args with
  | none => { code := 2, tree := i.tree }
  | some command =>
    let p := execute i.stdin command { tree := i.tree }
    match p.failure with
    | none => { code := 0, stdout := p.stdout, tree := p.tree }
    | some chain => { code := 1, stdout := p.stdout, stderr := report chain, tree := p.tree }

/-- The files that are new or different in a tree. -/
def changedFiles (before after : FileTree) : List (Path × Content) :=
  after.files.filter fun f => before.fileAt? f.1 != some f.2

/-- The files below the working folder that are new or different. -/
def changedInside (before after : FileTree) : List (Path × Content) :=
  (changedFiles before after).filter fun f => f.1.isInner

end BlitzDoc.CommandLine
