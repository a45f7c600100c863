import Mathlib.Data.List.Basic

/-!
# Backslashes

A backslash escapes the character behind it: `unescape` drops the backslash and keeps the character,
`bare` drops both. What starts or ends a part of a text does so only where it is bare.
-/

namespace BlitzDoc.Text

/-- The text that escaped text stands for. -/
def unescape : List Char → List Char
  | '\\' :: c :: cs => c :: unescape cs
  | c :: cs => c :: unescape cs
  | [] => []

/-- The characters that are not escaped, without the backslashes that escape others. -/
def bare : List Char → List Char
  | '\\' :: _ :: cs => bare cs
  | c :: cs => c :: bare cs
  | [] => []

theorem unescape_cons {c : Char} (h : c ≠ '\\') (cs : List Char) :
    unescape (c :: cs) = c :: unescape cs := by
  rw [unescape]
  exact fun _ _ hc _ => h hc

theorem bare_cons {c : Char} (h : c ≠ '\\') (cs : List Char) : bare (c :: cs) = c :: bare cs := by
  rw [bare]
  exact fun _ _ hc _ => h hc

end BlitzDoc.Text
