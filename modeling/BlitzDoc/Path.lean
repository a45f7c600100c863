import BlitzDoc.Text.Cut
import BlitzDoc.Text.LowerCase

/-!
# Paths

A path is kept as it was written; `components` is what it means. Separators are slashes, repeated
separators and inner `.` pieces mean nothing, and a leading slash makes a path absolute.
`normalize` folds `..` into the name before it, which gives every spelling of a place one text.
-/

namespace BlitzDoc

/-- A path as written. -/
structure Path where
  text : String
deriving DecidableEq, Repr, Inhabited

/-- One step of a path. -/
inductive Component where
  /-- The leading slash of an absolute path. -/
  | root
  /-- A leading `.`. -/
  | here
  /-- A `..`. -/
  | up
  | name (text : String)
deriving DecidableEq, Repr

namespace Component

/-- The step that a piece between two slashes stands for, if any. -/
def ofPiece? : List Char → Option Component
  | [] => none
  | ['.'] => none
  | ['.', '.'] => some up
  | cs => some (name (String.ofList cs))

/-- How a step is written between slashes. -/
def text : Component → String
  | root => "/"
  | here => "."
  | up => ".."
  | name s => s

/-- The place of the kinds of step in the order of paths. -/
def rank : Component → Nat
  | root => 0
  | here => 1
  | up => 2
  | name _ => 3

/-- Steps are ordered by kind, names among themselves by their text. -/
def compare (a b : Component) : Ordering :=
  (Ord.compare a.rank b.rank).then (Ord.compare a.text b.text)

end Component

namespace Path

/-- The texts between the slashes. -/
def pieces (p : Path) : List (List Char) :=
  p.text.toList.splitOn '/'

/-- The first piece as steps. It is empty in an absolute path, and only here a `.` counts. -/
def leading (first : List Char) (isWhole : Bool) : List Component :=
  if first = [] then (if isWhole then [] else [.root])
  else if first = ['.'] then [.here]
  else (Component.ofPiece? first).toList

/-- The steps of a path. -/
def components (p : Path) : List Component :=
  match p.pieces with
  | [] => []
  | first :: rest => leading first rest.isEmpty ++ rest.filterMap Component.ofPiece?

/-- The step that a piece is when every folder on the way is entered: a `.` stays where it is, but
only a folder can be stayed in. -/
def stepOf? : List Char → Option Component
  | ['.'] => some .here
  | piece => Component.ofPiece? piece

/-- The steps of a path with every `.` among them. -/
def steps (p : Path) : List Component :=
  match p.pieces with
  | [] :: _ :: _ => .root :: p.pieces.filterMap stepOf?
  | ps => ps.filterMap stepOf?

/-- The path that steps are written as. -/
def ofComponents : List Component → Path
  | .root :: rest => ⟨"/" ++ "/".intercalate (rest.map Component.text)⟩
  | steps => ⟨"/".intercalate (steps.map Component.text)⟩

/-- Two paths take the same steps. -/
def same (p q : Path) : Bool :=
  p.components == q.components

/-- The path ends in a slash, so that only a folder can be meant. -/
def endsInSlash (p : Path) : Bool :=
  p.text.toList.getLast? == some '/'

/-- The path starts with a name, so it lies below the folder that it is seen from. -/
def isInner (p : Path) : Bool :=
  match p.components with
  | .name _ :: _ => true
  | _ => false

/-- The path starts with a slash. -/
def isAbsolute (p : Path) : Bool :=
  p.text.toList.head? == some '/'

/-- `sub` as seen from `base`: an absolute `sub` stands alone, any other is written behind a
slash. -/
def join (base sub : Path) : Path :=
  if sub.isAbsolute then sub
  else if base.text.isEmpty || base.text.toList.getLast? == some '/' then ⟨base.text ++ sub.text⟩
  else ⟨base.text ++ "/" ++ sub.text⟩

instance : HDiv Path String Path := ⟨fun p s => p.join ⟨s⟩⟩

/-! ## The parts of a path -/

/-- A piece that is no step. -/
def isTrivial (piece : List Char) : Bool :=
  piece = [] || piece = ['.']

/-- The pieces up to the last that is a step. -/
def dropTrivialEnd (ps : List (List Char)) : List (List Char) :=
  (ps.reverse.dropWhile isTrivial).reverse

/-- The path without its last step, as written. A path without steps has no parent, nor has the
root. -/
def parent? (p : Path) : Option Path :=
  let write (ps : List (List Char)) : Path := ⟨String.ofList (['/'].intercalate ps)⟩
  match p.pieces with
  | [] => none
  | first :: rest =>
    if first = [] && !rest.isEmpty then
      match dropTrivialEnd rest with
      | [] => none
      | body => some ⟨"/" ++ (write (dropTrivialEnd body.dropLast)).text⟩
    else if first = ['.'] then
      match dropTrivialEnd rest with
      | [] => some ⟨""⟩
      | body => some (write (first :: dropTrivialEnd body.dropLast))
    else
      match dropTrivialEnd (first :: rest) with
      | [] => none
      | body => some (write (dropTrivialEnd body.dropLast))

/-- A path, its parent, the parent of that and so on, as far as there are names to leave out;
`budget` bounds how many. -/
def ancestorsFrom : Nat → Path → List Path
  | 0, _ => []
  | budget + 1, p =>
    match p.parent? with
    | none => []
    | some parent => p :: ancestorsFrom budget parent

/-- A path and the folders that lead to it, the outermost last. -/
def ancestors (p : Path) : List Path :=
  ancestorsFrom p.components.length p

/-- The last step, if it is a name. -/
def fileName? (p : Path) : Option String :=
  match p.components.getLast? with
  | some (.name s) => some s
  | _ => none

/-- A file name as what stands before and after its last dot. A dot at the start divides
nothing. -/
def splitName (name : String) : String × Option String :=
  let backwards := name.toList.reverse
  match backwards.dropWhile (· != '.') with
  | [] => (name, none)
  | _ :: [] => (name, none)
  | _ :: stem => (String.ofList stem.reverse, some (String.ofList (backwards.takeWhile (· != '.')).reverse))

/-- The file name without its extension, empty for a path that ends in no name. -/
def stem (p : Path) : String :=
  match p.fileName? with
  | some name => (splitName name).1
  | none => ""

/-- The text after the last dot of the file name. -/
def extension? (p : Path) : Option String :=
  p.fileName?.bind fun name => (splitName name).2

/-- The path has this extension, in any mix of small and capital letters. -/
def hasExtension (p : Path) (ext : String) : Bool :=
  match p.extension? with
  | some e => Text.lowerAscii e == Text.lowerAscii ext
  | none => false

/-! ## Normal form -/

/-- Takes one more step. `done` holds the steps so far, the last one first: `..` undoes a name and
stays otherwise. -/
def foldStep (done : List Component) : Component → List Component
  | .here => done
  | .up =>
    match done with
    | .name _ :: rest => rest
    | _ => .up :: done
  | c => c :: done

/-- The path without `.` and with every `..` folded into the name before it. -/
def normalize (p : Path) : Path :=
  ofComponents (p.components.foldl foldStep []).reverse

/-! ## Order -/

/-- Compares two lists of steps, step by step. -/
def compareSteps : List Component → List Component → Ordering
  | [], [] => .eq
  | [], _ :: _ => .lt
  | _ :: _, [] => .gt
  | a :: as, b :: bs => (a.compare b).then (compareSteps as bs)

/-- Paths are ordered by their steps. -/
def le (p q : Path) : Bool :=
  (compareSteps p.components q.components).isLE

end Path

end BlitzDoc
