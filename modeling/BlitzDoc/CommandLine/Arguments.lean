import BlitzDoc.Config

/-!
# Arguments of the command line

Four commands, each with options that take a value, flags that take none, and positional
arguments. An option may be written as two arguments or as one, and may be given once. After `--`
every argument is positional.
-/

namespace BlitzDoc.CommandLine

/-- What a command takes. -/
structure Grammar where
  /-- Options that take a value. -/
  options : List String
  /-- Options by a single letter. -/
  letters : List (Char × String) := []
  flags : List String := []

/-- The arguments of a command, sorted by kind. -/
structure Arguments where
  values : List (String × String) := []
  flags : List String := []
  positional : List String := []
deriving DecidableEq, Repr

namespace Arguments

/-- Adds the value of an option that was not given before. -/
def addValue? (a : Arguments) (name value : String) : Option Arguments :=
  if (a.values.lookup name).isSome then none
  else some { a with values := a.values ++ [(name, value)] }

/-- Adds a flag that was not given before. -/
def addFlag? (a : Arguments) (name : String) : Option Arguments :=
  if a.flags.contains name then none else some { a with flags := a.flags ++ [name] }

/-- Adds a positional argument. -/
def addPositional (a : Arguments) (arg : String) : Arguments :=
  { a with positional := a.positional ++ [arg] }

def value? (a : Arguments) (name : String) : Option String :=
  a.values.lookup name

def hasFlag (a : Arguments) (name : String) : Bool :=
  a.flags.contains name

end Arguments

/-- The shape of a single argument. -/
inductive Shape where
  /-- `--` -/
  | separator
  /-- `--name` or `--name=value` -/
  | long (name : String) (value : Option String)
  /-- `-l`, `-lvalue` or `-l=value` -/
  | short (letter : Char) (value : Option String)
  | plain
deriving DecidableEq, Repr

/-- The shape of an argument. A lone hyphen is plain. -/
def shapeOf (arg : String) : Shape :=
  match arg.toList with
  | ['-', '-'] => .separator
  | '-' :: '-' :: rest =>
    let name := rest.takeWhile (· != '=')
    match rest.dropWhile (· != '=') with
    | [] => .long (String.ofList name) none
    | _ :: value => .long (String.ofList name) (some (String.ofList value))
  | '-' :: letter :: '=' :: value => .short letter (some (String.ofList value))
  | '-' :: letter :: [] => .short letter none
  | '-' :: letter :: value => .short letter (some (String.ofList value))
  | _ => .plain

/-- Sorts the arguments of a command; none if they do not fit it. -/
def collect? (g : Grammar) (a : Arguments) : List String → Option Arguments
  | [] => some a
  | arg :: rest =>
    -- the value of an option is in the argument itself or is the next one
    let option? (name : String) (value : Option String) : Option (Arguments × Bool) :=
      match value, rest with
      | some v, _ => (a.addValue? name v).map (·, false)
      | none, v :: _ => if shapeOf v = .plain then (a.addValue? name v).map (·, true) else none
      | none, [] => none
    let next (step : Option (Arguments × Bool)) : Option Arguments :=
      match step, rest with
      | none, _ => none
      | some (a, true), _ :: more => collect? g a more
      | some (a, _), rest => collect? g a rest
    match shapeOf arg with
    | .separator => some (rest.foldl Arguments.addPositional a)
    | .plain => collect? g (a.addPositional arg) rest
    | .long name value =>
      if g.options.contains name then next (option? name value)
      else if g.flags.contains name && value.isNone then next ((a.addFlag? name).map (·, false))
      else none
    | .short letter value =>
      match g.letters.lookup letter with
      | some name => next (option? name value)
      | none => none

/-! ## Commands -/

/-- An installation, and a cache file other than the usual one. -/
structure Toolchain where
  root : Path
  cache : Option Path := none
deriving DecidableEq, Repr

def Toolchain.config (tc : Toolchain) : Config :=
  let config := Config.ofRoot tc.root
  match tc.cache with
  | some cacheFile => { config with cacheFile }
  | none => config

/-- What the command line asks for. -/
inductive Command where
  /-- Document source files. -/
  | analyze (files : List String) (followImports moduleEntry : Bool) (format : String)
      (output : Option Path) (extension : String)
  /-- Format a text from standard input. -/
  | format (strip : Bool) (format : String)
  /-- Rescan the modules of an installation. -/
  | scan (toolchain : Toolchain) (force : Bool)
  /-- Look up a command in the index. -/
  | index (toolchain : Toolchain) (query : Option String) (docs : Bool)
deriving DecidableEq, Repr

/-- A path that was given; an empty one is refused. -/
def path? (s : String) : Option Path :=
  if s.isEmpty then none else some ⟨s⟩

/-- An optional path. -/
def optionalPath? : Option String → Option (Option Path)
  | none => some none
  | some s => (path? s).map some

/-- The installation that is named by an option or, failing that, by the environment. -/
def toolchain? (a : Arguments) (environment : Option String) : Option Toolchain := do
  let root ← path? (← (a.value? "bmx-path").or environment)
  return { root, cache := ← optionalPath? (a.value? "cache") }

def analyze? (args : List String) : Option Command := do
  let a ← collect? { options := ["format", "output", "extension"]
                     letters := [('f', "format"), ('o', "output")]
                     flags := ["follow-imports", "module-entry"] } {} args
  if a.positional.isEmpty then none
  let output ← optionalPath? (a.value? "output")
  return .analyze a.positional (a.hasFlag "follow-imports") (a.hasFlag "module-entry")
    ((a.value? "format").getD "markdown") output
    ((a.value? "extension").getD Config.defaultExtension)

def format? (args : List String) : Option Command := do
  let a ← collect? { options := ["format"]
                     letters := [('f', "format")]
                     flags := ["strip-newlines"] } {} args
  if !a.positional.isEmpty then none
  return .format (a.hasFlag "strip-newlines") ((a.value? "format").getD "markdown")

def scan? (environment : Option String) (args : List String) : Option Command := do
  let a ← collect? { options := ["bmx-path", "cache"], flags := ["force"] } {} args
  if !a.positional.isEmpty then none
  return .scan (← toolchain? a environment) (a.hasFlag "force")

def index? (environment : Option String) (args : List String) : Option Command := do
  let a ← collect? { options := ["bmx-path", "cache"], flags := ["docs"] } {} args
  if a.positional.length > 1 then none
  return .index (← toolchain? a environment) a.positional.head? (a.hasFlag "docs")

/-- The command that arguments ask for; none if they make no sense. `environment` is the
installation that the environment names. -/
def parse? (environment : Option String) : List String → Option Command
  | "analyze" :: args => analyze? args
  | "format" :: args => format? args
  | "scan" :: args => scan? environment args
  | "index" :: args => index? environment args
  | _ => none

/-- How the program is called. -/
def usage : String :=
  "usage: analyze [-f FORMAT] [-o FOLDER] [--follow-imports] [--module-entry] [--extension EXT] FILES\n"
    ++ "       format [-f FORMAT] [--strip-newlines]\n"
    ++ "       scan --bmx-path FOLDER [--cache FILE] [--force]\n"
    ++ "       index --bmx-path FOLDER [--cache FILE] [--docs] [QUERY]\n"

end BlitzDoc.CommandLine
