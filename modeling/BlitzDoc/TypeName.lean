import BlitzDoc.Text.Blank
import BlitzDoc.Text.LowerCase
import BlitzDoc.Text.Word

/-!
# Type names

A type can be written by its name or by a shorthand tag. `expand` gives both spellings one text:
tags become names, the names of builtin types get their usual capitals, and what follows (array
brackets, `Ptr`, a parameter list) is kept.
-/

namespace BlitzDoc.TypeName

/-- The type that a tag character stands for. -/
def shorthand? : Char → Option String
  | '%' => some "Int"
  | '#' => some "Float"
  | '!' => some "Double"
  | '$' => some "String"
  | _ => none

/-- The builtin types in their usual capitals. -/
def builtins : List String :=
  ["Byte", "Short", "Int", "UInt", "Long", "ULong", "Size_T", "Float", "Double", "String", "Object"]

/-- The character can stand in a type's name. -/
def isNameChar (c : Char) : Bool :=
  Text.isAlphanumeric c || c == '_'

/-- The builtin type with this name in any mix of capitals. -/
def builtin? (name : List Char) : Option String :=
  builtins.find? fun b => Text.lowerAscii b == Text.lowerAscii (String.ofList name)

/-- A type whose text starts with its name. -/
def expandNamed (s : List Char) : List Char :=
  match builtin? (s.takeWhile isNameChar) with
  | some b => b.toList ++ s.dropWhile isNameChar
  | none => s

/-- A type without blanks at its ends, in its uniform spelling. A parameter list without a type in
front is a function that returns `Int`. -/
def expandTrimmed : List Char → List Char
  | '(' :: rest => "Int(".toList ++ rest
  | '%' :: '%' :: rest => "Long".toList ++ Text.dropBlanks rest
  | c :: rest =>
    match shorthand? c with
    | some name => name.toList ++ Text.dropBlanks rest
    | none => expandNamed (c :: rest)
  | [] => []

/-- The uniform spelling of a type. -/
def expand (s : String) : String :=
  String.ofList (expandTrimmed (Text.trim s).toList)

end BlitzDoc.TypeName
