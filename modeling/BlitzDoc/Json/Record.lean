import BlitzDoc.Json.Basic

/-!
# Records in JSON

A record is an object with the names of its fields, or an array of its fields in order. Unknown
names are passed over, a known name may stand only once. Readers of single fields then say what a
missing field means.
-/

namespace BlitzDoc.Json

/-- The fields of a record by position, `none` where one is missing. An array may end early only if
`mayEndEarly`. -/
def fields? (names : List String) (mayEndEarly : Bool) : Json → Option (List (Option Json))
  | .obj members =>
    if names.all fun name => (members.filter fun m => m.1 == name).length ≤ 1 then
      some (names.map fun name => members.lookup name)
    else none
  | .arr items =>
    if items.length ≤ names.length && (mayEndEarly || items.length == names.length) then
      some (items.map some ++ List.replicate (names.length - items.length) none)
    else none
  | _ => none

/-- A field that has to be there. -/
def required {α : Type} (read : Json → Option α) (field : Option Json) : Option α :=
  field.bind read

/-- A field that means `default` when it is missing. -/
def defaulted {α : Type} (default : α) (read : Json → Option α) : Option Json → Option α
  | none => some default
  | some v => read v

/-- A field that may be missing or null. -/
def optional {α : Type} (read : Json → Option α) : Option Json → Option (Option α)
  | none => some none
  | some .null => some none
  | some v => (read v).map some

/-- An array of values of one kind. -/
def list? {α : Type} (read : Json → Option α) : Json → Option (List α)
  | .arr items => items.mapM read
  | _ => none

/-- One of a fixed set of words: a string, or an object that maps the word to null. -/
def oneOf? {α : Type} (ofWord? : String → Option α) : Json → Option α
  | .str s => ofWord? s
  | .obj [(s, .null)] => ofWord? s
  | _ => none

/-- A member, left out when there is no value. -/
def member? (name : String) (value : Option Json) : List (String × Json) :=
  match value with
  | some v => [(name, v)]
  | none => []

end BlitzDoc.Json
