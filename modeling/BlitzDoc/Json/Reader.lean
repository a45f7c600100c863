import BlitzDoc.Json.Basic
import BlitzDoc.Text.Digits

/-!
# Reading JSON

A strict reader: the four JSON blanks between tokens, no leading zeros, no raw control characters
in strings, nothing after the value. An escaped surrogate pair is one character; a string with half
a pair reads as `torn`.
-/

namespace BlitzDoc.Json

/-- Drops the blanks that may stand between tokens. -/
def skipBlanks (cs : List Char) : List Char :=
  cs.dropWhile fun c => c == ' ' || c == '\n' || c == '\t' || c == '\r'

/-! ## Strings -/

/-- The value of a hexadecimal digit. -/
def hexValue? (c : Char) : Option Nat :=
  if '0' ≤ c && c ≤ '9' then some (c.toNat - '0'.toNat)
  else if 'a' ≤ c && c ≤ 'f' then some (c.toNat - 'a'.toNat + 10)
  else if 'A' ≤ c && c ≤ 'F' then some (c.toNat - 'A'.toNat + 10)
  else none

/-- The number of four hexadecimal digits. -/
def hex4? (a b c d : Char) : Option Nat := do
  return ((← hexValue? a) * 16 + (← hexValue? b)) * 256 + (← hexValue? c) * 16 + (← hexValue? d)

/-- One unit of a string: a character, or a 16-bit unit that was escaped by number. -/
inductive StringUnit where
  | char (c : Char)
  | escaped (n : Nat)

/-- The character that a one-letter escape stands for. -/
def simpleEscape? : Char → Option Char
  | '"' => some '"'
  | '\\' => some '\\'
  | '/' => some '/'
  | 'b' => some '\x08'
  | 'f' => some '\x0c'
  | 'n' => some '\n'
  | 'r' => some '\r'
  | 't' => some '\t'
  | _ => none

/-- The units of a string up to its closing quote, and what follows that. -/
def stringUnits : List Char → Option (List StringUnit × List Char)
  | [] => none
  | '"' :: rest => some ([], rest)
  | '\\' :: 'u' :: a :: b :: c :: d :: rest => do
    let n ← hex4? a b c d
    let (units, after) ← stringUnits rest
    return (.escaped n :: units, after)
  | '\\' :: e :: rest => do
    let c ← simpleEscape? e
    let (units, after) ← stringUnits rest
    return (.char c :: units, after)
  | c :: rest => do
    if c.toNat < 0x20 then none
    let (units, after) ← stringUnits rest
    return (.char c :: units, after)

/-- The unit is the first half of a surrogate pair. -/
def isHighHalf (n : Nat) : Bool :=
  0xd800 ≤ n && n < 0xdc00

/-- The unit is the second half of a surrogate pair. -/
def isLowHalf (n : Nat) : Bool :=
  0xdc00 ≤ n && n < 0xe000

/-- The characters that units stand for; none if half a surrogate pair is left over. -/
def unitsText : List StringUnit → Option (List Char)
  | [] => some []
  | .char c :: rest => (unitsText rest).map (c :: ·)
  | .escaped hi :: .escaped lo :: rest =>
    if isHighHalf hi then
      if isLowHalf lo then
        (unitsText rest).map (Char.ofNat (0x10000 + (hi - 0xd800) * 0x400 + (lo - 0xdc00)) :: ·)
      else none
    else if isLowHalf hi then none
    else (unitsText (.escaped lo :: rest)).map (Char.ofNat hi :: ·)
  | .escaped n :: rest =>
    if isHighHalf n || isLowHalf n then none else (unitsText rest).map (Char.ofNat n :: ·)

/-- A string after its opening quote: its text, if it has one, and what follows. -/
def stringBody (cs : List Char) : Option (Option String × List Char) := do
  let (units, rest) ← stringUnits cs
  return ((unitsText units).map String.ofList, rest)

/-! ## Numbers -/

/-- At least one digit, and what follows the digits. -/
def digits1? (cs : List Char) : Option (List Char × List Char) :=
  match cs.takeWhile Char.isDigit with
  | [] => none
  | ds => some (ds, cs.dropWhile Char.isDigit)

/-- The digits before the point: a single zero or a run that starts with another digit. -/
def wholePart? (cs : List Char) : Option (List Char × List Char) :=
  match cs with
  | '0' :: rest =>
    match rest with
    | d :: _ => if d.isDigit then none else some (['0'], rest)
    | [] => some (['0'], rest)
  | _ => digits1? cs

/-- A point and digits, or nothing. -/
def fraction? : List Char → Option (List Char × List Char)
  | '.' :: rest => (digits1? rest).map fun (ds, after) => ('.' :: ds, after)
  | cs => some ([], cs)

/-- An exponent, or nothing. -/
def exponent? : List Char → Option (List Char × List Char)
  | e :: rest =>
    if e == 'e' || e == 'E' then
      match rest with
      | '+' :: ds => (digits1? ds).map fun (ds, after) => (e :: '+' :: ds, after)
      | '-' :: ds => (digits1? ds).map fun (ds, after) => (e :: '-' :: ds, after)
      | ds => (digits1? ds).map fun (ds, after) => (e :: ds, after)
    else some ([], e :: rest)
  | [] => some ([], [])

/-- A number and what follows it. -/
def numberBody? (cs : List Char) : Option (Json × List Char) := do
  let (sign, afterSign) :=
    match cs with
    | '-' :: rest => (['-'], rest)
    | _ => ([], cs)
  let (whole, afterWhole) ← wholePart? afterSign
  let (frac, afterFrac) ← fraction? afterWhole
  let (exp, rest) ← exponent? afterFrac
  if sign.isEmpty && frac.isEmpty && exp.isEmpty then
    return (.nat (Text.digitsValue whole), rest)
  else
    return (.number (String.ofList (sign ++ whole ++ frac ++ exp)), rest)

/-! ## Values -/

/-- What follows `word` at the start of the text. -/
def afterWord? (word : String) (cs : List Char) : Option (List Char) :=
  if word.toList.isPrefixOf cs then some (cs.drop word.toList.length) else none

/-- The object of some members, which is torn if one of the names is no text. -/
def ofMembers (members : List (Option String × Json)) : Json :=
  match members.mapM fun m => m.1.map fun name => (name, m.2) with
  | some named => .obj named
  | none => .torn

mutual

/-- A value at the start of the text, and what follows it. Every nested reading takes at least one
character, so the length of the text is budget enough. -/
def value? : Nat → List Char → Option (Json × List Char)
  | 0, _ => none
  | budget + 1, cs =>
    match skipBlanks cs with
    | '"' :: rest => do
      let (s, after) ← stringBody rest
      return ((s.map Json.str).getD .torn, after)
    | '[' :: rest =>
      match skipBlanks rest with
      | ']' :: after => some (.arr [], after)
      | _ => do
        let (items, after) ← items? budget rest
        return (.arr items, after)
    | '\x7b' :: rest =>
      match skipBlanks rest with
      | '\x7d' :: after => some (.obj [], after)
      | _ => do
        let (members, after) ← members? budget rest
        return (ofMembers members, after)
    | 'n' :: rest => (afterWord? "ull" rest).map (Json.null, ·)
    | 't' :: rest => (afterWord? "rue" rest).map (Json.bool true, ·)
    | 'f' :: rest => (afterWord? "alse" rest).map (Json.bool false, ·)
    | other => numberBody? other

/-- The items of an array up to its closing bracket. -/
def items? : Nat → List Char → Option (List Json × List Char)
  | 0, _ => none
  | budget + 1, cs => do
    let (v, rest) ← value? budget cs
    match skipBlanks rest with
    | ',' :: more => do
      let (vs, after) ← items? budget more
      return (v :: vs, after)
    | ']' :: after => return ([v], after)
    | _ => none

/-- The members of an object up to its closing brace. -/
def members? : Nat → List Char → Option (List (Option String × Json) × List Char)
  | 0, _ => none
  | budget + 1, cs => do
    let '"' :: inName := skipBlanks cs | none
    let (name, afterName) ← stringBody inName
    let ':' :: afterColon := skipBlanks afterName | none
    let (v, rest) ← value? budget afterColon
    match skipBlanks rest with
    | ',' :: more => do
      let (ms, after) ← members? budget more
      return ((name, v) :: ms, after)
    | '\x7d' :: after => return ([(name, v)], after)
    | _ => none

end

/-- The value that a whole text stands for. -/
def read? (s : String) : Option Json := do
  let cs := s.toList
  let (v, rest) ← value? (2 * cs.length + 2) cs
  if (skipBlanks rest).isEmpty then some v else none

end BlitzDoc.Json
