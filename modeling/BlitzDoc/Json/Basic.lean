/-!
# JSON values

Objects keep their members in the order of the text, repeated names included. Natural numbers are
kept as such; any other number is kept as it was written.
-/

namespace BlitzDoc

/-- A JSON value. -/
inductive Json where
  | null
  | bool (b : Bool)
  /-- A number written with digits alone. -/
  | nat (n : Nat)
  /-- Any other number: with a sign, a fraction or an exponent. -/
  | number (lexeme : String)
  | str (s : String)
  | arr (items : List Json)
  | obj (members : List (String × Json))
  /-- A string that escapes half a surrogate pair, or an object with such a name: well-formed, but
  no text. -/
  | torn
deriving Inhabited

namespace Json

/-- The value of a member of an object; of a repeated name the last one. -/
def get? (v : Json) (name : String) : Option Json :=
  match v with
  | .obj members => (members.reverse.find? fun m => m.1 == name).map (·.2)
  | _ => none

/-- The text of a string. -/
def str? : Json → Option String
  | .str s => some s
  | _ => none

/-- The items of an array. -/
def arr? : Json → Option (List Json)
  | .arr items => some items
  | _ => none

/-- A number as a word of 64 bits, which wraps around. -/
def word (n : Nat) : Json :=
  .nat (n % UInt64.size)

/-- A natural number of at most 64 bits. -/
def word? : Json → Option Nat
  | .nat n => if n < UInt64.size then some n else none
  | _ => none

end Json

end BlitzDoc
