/-!
# Decimal digits

The value of a run of the digits `0` to `9`.
-/

namespace BlitzDoc.Text

/-- The value of a run of decimal digits. -/
def digitsValue (ds : List Char) : Nat :=
  ds.foldl (fun n d => 10 * n + (d.toNat - '0'.toNat)) 0

end BlitzDoc.Text
