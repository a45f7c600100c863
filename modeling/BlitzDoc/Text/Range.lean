/-!
# Ranges of code points

Character classes are given as lists of code point ranges in increasing order.
-/

namespace BlitzDoc.Text

/-- Some range holds the code point. The ranges increase, so the search ends at the first one that
lies above it. -/
def inRanges : List (Nat × Nat) → Nat → Bool
  | [], _ => false
  | (first, last) :: rest, n =>
    if n < first then false else n ≤ last || inRanges rest n

end BlitzDoc.Text
