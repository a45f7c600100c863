import BlitzDoc.Text.Range

/-!
# Blank characters

Blanks are the characters of the Unicode property `White_Space`. Trimming removes them from the
ends of a text.
-/

namespace BlitzDoc.Text

/-- Ranges of the blank characters. -/
def blankRanges : List (Nat × Nat) :=
  [(0x9, 0xd), (0x20, 0x20), (0x85, 0x85), (0xa0, 0xa0), (0x1680, 0x1680), (0x2000, 0x200a),
   (0x2028, 0x2029), (0x202f, 0x202f), (0x205f, 0x205f), (0x3000, 0x3000)]

/-- The character is a blank: a space, a tab, a line break or one of their relatives. -/
def isBlank (c : Char) : Bool :=
  inRanges blankRanges c.toNat

/-- The characters from the first that is no blank. -/
def dropBlanks (cs : List Char) : List Char :=
  cs.dropWhile isBlank

/-- The characters up to the last that is no blank. -/
def dropBlanksEnd (cs : List Char) : List Char :=
  (cs.reverse.dropWhile isBlank).reverse

/-- The text without the blanks before its first other character. -/
def trimStart (s : String) : String :=
  String.ofList (dropBlanks s.toList)

/-- The text without the blanks after its last other character. -/
def trimEnd (s : String) : String :=
  String.ofList (dropBlanksEnd s.toList)

/-- The text without blanks at its ends. -/
def trim (s : String) : String :=
  String.ofList (dropBlanksEnd (dropBlanks s.toList))

/-- The text, unless it is empty. -/
def nonEmpty? (s : String) : Option String :=
  if s.isEmpty then none else some s

/-! ## Trimming shortens -/

theorem length_dropWhile_le (p : Char → Bool) (cs : List Char) :
    (cs.dropWhile p).length ≤ cs.length := by
  induction cs with
  | nil => exact Nat.le_refl _
  | cons c cs ih =>
    rw [List.dropWhile_cons]
    split
    · exact Nat.le_succ_of_le ih
    · exact Nat.le_refl _

theorem length_dropBlanksEnd_le (cs : List Char) : (dropBlanksEnd cs).length ≤ cs.length := by
  have h := length_dropWhile_le isBlank cs.reverse
  rwa [List.length_reverse, ← List.length_reverse] at h

theorem length_trim_le (s : String) : (trim s).length ≤ s.length := by
  have h : (dropBlanksEnd (dropBlanks s.toList)).length ≤ s.toList.length :=
    Nat.le_trans (length_dropBlanksEnd_le _) (length_dropWhile_le isBlank s.toList)
  rwa [String.length_toList, ← String.length_ofList] at h

end BlitzDoc.Text
