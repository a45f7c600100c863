import BlitzDoc.About
import BlitzDoc.Analysis
import BlitzDoc.Config
import BlitzDoc.Event
import BlitzDoc.Source.Line

/-!
# Scanning a source

Reads a source line by line. A `Rem` block whose first line is `bbdoc:` holds a documentation text,
which is bound to the declaration on the next line of code. The scan keeps track of the aggregate
that a declaration stands in, and notes modules, imports and includes.
-/

namespace BlitzDoc.Source

/-- How a source is scanned. -/
structure Options where
  /-- The source declares a module: its name is noted, and every entry is tagged with it. -/
  isModuleEntry : Bool := false
  /-- Imported and included files are scanned too. -/
  followImports : Bool := false
  /-- Only files with this extension are followed. -/
  extension : String := Config.defaultExtension
deriving DecidableEq, Repr, Inhabited

/-- A comment block. -/
inductive Block where
  | comment
  /-- A comment whose first line is `bbdoc:`. -/
  | doc
deriving DecidableEq, Repr

/-- The part of a documentation text that a line belongs to. -/
inductive Tag where
  | bbdoc
  | about
  | keyword
  | returns
deriving DecidableEq, Repr

def Tag.ofName? : String → Option Tag
  | "bbdoc" => some bbdoc
  | "about" => some about
  | "keyword" => some keyword
  | "returns" => some returns
  | _ => none

/-- A documentation text that is being read, or waits for its declaration. -/
structure OpenDoc where
  line : Nat
  tag : Tag := .bbdoc
  info : List String := []
  about : List String := []
  returns : List String := []
  keyword : Option String := none
deriving DecidableEq, Repr

namespace OpenDoc

/-- Adds a line to the part that is being read. A keyword is its tag line alone. -/
def push (d : OpenDoc) (text : List Char) : OpenDoc :=
  let text := String.ofList text
  match d.tag with
  | .bbdoc => { d with info := d.info ++ [text] }
  | .about => { d with about := d.about ++ [text] }
  | .returns => { d with returns := d.returns ++ [text] }
  | .keyword => d

end OpenDoc

/-- A declaration that goes on on the next line. -/
structure Unfinished where
  doc : OpenDoc
  line : Nat
  text : List Char
deriving DecidableEq, Repr

/-- What was read so far. -/
structure State where
  file : Path
  options : Options
  /-- The open blocks, the innermost first. -/
  blocks : List Block := []
  /-- The open comment has had no line with text yet. -/
  awaitingFirstLine : Bool := false
  openDoc : Option OpenDoc := none
  /-- A text that waits for its declaration. -/
  pending : Option OpenDoc := none
  unfinished : Option Unfinished := none
  /-- The open aggregates, the innermost first, each with its entry if it has one. -/
  aggregates : List (Option Nat) := []
  /-- The files that the source pulls in. -/
  targets : List Path := []
  result : Analysis := {}
  log : List Event := []
deriving DecidableEq, Repr

namespace State

/-- Adds an event. -/
def report (s : State) (e : Event) : State :=
  { s with log := s.log ++ [e] }

/-! ## Entries -/

/-- The lines of a part as one text, if there is any. -/
def joinLines (lines : List String) : Option String :=
  Text.nonEmpty? (Text.trim ("\n".intercalate lines))

/-- The entry of a documentation text and its declaration. -/
def entryOf (doc : OpenDoc) (declaration : Declaration) : DocEntry :=
  let about := joinLines doc.about
  { info := (joinLines doc.info).getD ""
    about
    aboutMarkdown := about.map About.toMarkdown
    aboutPlain := about.map About.toPlain
    returns := joinLines doc.returns
    declaration
    searchKey := Text.lower declaration.name }

/-- Adds an entry. -/
def pushEntry (s : State) (e : DocEntry) : State :=
  { s with result := { s.result with docs := s.result.docs ++ [e] } }

/-- Reads a declaration and binds a documentation text to it. -/
def bind (s : State) (doc : OpenDoc) (line : Nat) (text : List Char) : State :=
  let raw := String.ofList text
  let (declaration, issues) := Signature.read raw s.file line
  let parent := s.aggregates.head?.join
  let s := { s with log := s.log ++ issues.map (Event.malformedSignature s.file line raw) }
  s.pushEntry (entryOf doc { declaration with parent })

/-- Adds the entry of a keyword, which has no line of code. -/
def pushKeyword (s : State) (doc : OpenDoc) (keyword : String) : State :=
  let d : Declaration :=
    { raw := keyword, file := s.file, line := doc.line, kind := .keyword, name := keyword }
  s.pushEntry (entryOf doc { d with pretty := d.layout })

/-! ## Comments -/

/-- Drops a text that waits for its declaration: a comment came in between. -/
def discardPending (s : State) (line : Nat) : State :=
  match s.pending with
  | some _ => { s with pending := none }.report (.entryDiscarded s.file line)
  | none => s

/-- Takes a line of a documentation text. -/
def docLine (s : State) (line : Nat) (text : List Char) : State :=
  match s.openDoc with
  | none => { s with blocks := s.blocks.tail }.report (.bodyWithoutEntry s.file line)
  | some doc =>
    match Line.splitTag? text with
    | some (name, rest) =>
      let value := Text.dropBlanksEnd (Text.dropBlanks rest)
      match Tag.ofName? name with
      | some .keyword =>
        let keyword := String.ofList (Line.stripPair value)
        { s with openDoc := some { doc with tag := .keyword, keyword := some keyword } }
      | some tag => { s with openDoc := some ({ doc with tag }.push value) }
      | none =>
        if doc.tag = .about then { s with openDoc := some (doc.push text) }
        else s.report (.unknownTag s.file line name)
    | none => { s with openDoc := some (doc.push text) }

/-- Ends the innermost block. A keyword is an entry at once, any other text waits. -/
def closeBlock (s : State) (line : Nat) : State :=
  let isDoc := s.blocks.head? = some .doc
  let s := { s with blocks := s.blocks.tail }
  if isDoc then
    match s.openDoc with
    | some doc =>
      let s := { s with openDoc := none }
      match doc.keyword with
      | some keyword => s.pushKeyword doc keyword
      | none => { s with pending := some doc }
    | none => s.report (.bodyWithoutEntry s.file line)
  else s

/-- Takes a line of the innermost block. -/
def blockLine (s : State) (block : Block) (n : Nat) (line : List Char) : State :=
  if Line.isEndRem line then s.closeBlock n
  else
    let text := Text.dropBlanksEnd (Text.dropBlanks line)
    match block with
    | .doc => s.docLine n text
    | .comment =>
      if text.isEmpty then s
      else
        let isFirst := s.awaitingFirstLine
        let s := { s with awaitingFirstLine := false }
        if !Line.startsDoc text then s
        else if !isFirst then s.report (.bodyWithoutEntry s.file n)
        else
          { s with blocks := .doc :: s.blocks.tail, openDoc := some { line := n } }.docLine n text

/-! ## Code -/

/-- A file that the source names, as seen from the folder of the source. -/
def resolve (s : State) (target : String) : Path :=
  (s.file.parent?.getD ⟨""⟩).join ⟨target⟩

/-- Imports and includes are noted. -/
def recordsLinks (s : State) : Bool :=
  s.options.isModuleEntry || s.options.followImports

/-- Takes what a line imports: files in quotes, or else modules. -/
def importLine (s : State) (value : List Char) : State :=
  match (Line.quoted value).map s.resolve with
  | [] =>
    let names := (value.splitOn ',').map fun m => Text.lower (Text.trim (String.ofList m))
    let named := names.filter fun m => !m.isEmpty
    { s with result :=
      { s.result with moduleImports := named.foldl addOnce s.result.moduleImports } }
  | paths =>
    { s with
      result := { s.result with imports := s.result.imports ++ paths }
      targets := s.targets ++ paths }

/-- Takes the files that a line includes. -/
def includeLine (s : State) (value : List Char) : State :=
  let paths := (Line.quoted value).map s.resolve
  { s with
    result := { s.result with includes := s.result.includes ++ paths }
    targets := s.targets ++ paths }

/-- Takes the structure of a line of code; `entry` is the entry that it was bound to. -/
def structureLine (s : State) (n : Nat) (code : List Char) (entry : Option Nat) : State :=
  if Line.opensAggregate code then { s with aggregates := entry :: s.aggregates }
  else if Line.closesAggregate code then
    match s.aggregates with
    | _ :: rest => { s with aggregates := rest }
    | [] => s.report (.endWithoutAggregate s.file n)
  else
    match Line.moduleName? code with
    | some name =>
      if s.options.isModuleEntry then { s with result := { s.result with moduleName := some name } }
      else s
    | none =>
      match Line.importValue? code with
      | some value => if s.recordsLinks then s.importLine value else s
      | none =>
        match Line.includeValue? code with
        | some value => if s.recordsLinks then s.includeLine value else s
        | none => s

/-- Takes the declaration of a documentation text. Two dots at its end continue it. -/
def declarationLine (s : State) (doc : OpenDoc) (n : Nat) (text : List Char) : State :=
  match Text.stripEnd? ['.', '.'] text with
  | some head =>
    { s with unfinished := some { doc, line := n, text := Text.dropBlanksEnd head } }
  | none => (s.bind doc n text).structureLine n text (some s.result.docs.length)

/-- Takes a line of code. -/
def codeLine (s : State) (n : Nat) (code : List Char) : State :=
  match s.unfinished with
  | some u => { s with unfinished := none }.declarationLine u.doc u.line (u.text ++ ' ' :: code)
  | none =>
    match s.pending with
    | some doc => { s with pending := none }.declarationLine doc n code
    | none => s.structureLine n code none

/-! ## Lines -/

/-- Takes the line with number `n`. -/
def line (s : State) (n : Nat) (line : List Char) : State :=
  match s.blocks with
  | block :: _ => s.blockLine block n line
  | [] =>
    match Line.afterRem? line with
    | some rest =>
      let s := { s.discardPending n with blocks := [.comment], awaitingFirstLine := true }
      let rest := Text.dropBlanksEnd (Text.dropBlanks rest)
      if rest.isEmpty then s else s.blockLine .comment n rest
    | none =>
      let text := Text.dropBlanksEnd (Text.dropBlanks line)
      if text.isEmpty then s
      else
        let code := Line.stripComment text
        if code.isEmpty then s.discardPending n else s.codeLine n code

/-- Takes lines that are numbered from `n`. -/
def lines (s : State) (n : Nat) : List (List Char) → State
  | [] => s
  | l :: ls => (s.line n l).lines (n + 1) ls

/-- Ends the source: a declaration that goes on ends here, and entries are tagged with the
module. -/
def finish (s : State) : State :=
  let s := if s.blocks.isEmpty then s else s.report (.unterminatedBlock s.file)
  let s := match s.unfinished with
    | some u => { s with unfinished := none }.bind u.doc u.line u.text
    | none => s
  match s.result.moduleName with
  | some name =>
    { s with result :=
      { s.result with docs := s.result.docs.map fun e => { e with module := some name } } }
  | none => s

end State

/-- The outcome of a scan. -/
structure Scanned where
  analysis : Analysis
  /-- The files that the source pulls in, in the order of the lines. -/
  targets : List Path
  log : List Event
deriving DecidableEq, Repr

/-- Scans a source that stands in a file. -/
def scan (source : String) (file : Path) (options : Options) : Scanned :=
  let start : State := { file, options }
  let s := (start.lines 1 (Text.lines source.toList)).finish
  { analysis := s.result, targets := s.targets, log := s.log }

end BlitzDoc.Source
