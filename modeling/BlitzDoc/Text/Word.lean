import BlitzDoc.Text.Alphabetic
import BlitzDoc.Text.Mark
import BlitzDoc.Text.Newest
import BlitzDoc.Text.Numeric

/-!
# Word characters

Two classes of characters that names are made of. `isAlphanumeric` takes the letters and numerals
of all scripts. `isWordChar` is the class that keywords are delimited by: letters, decimal digits,
combining marks, connectors and the two joiners, as far as version 16 of Unicode has them.
-/

namespace BlitzDoc.Text

/-- The character is a letter or a numeral of some script. -/
def isAlphanumeric (c : Char) : Bool :=
  isAlphabetic c || isNumeral c

/-- The character can stand inside a word, so that no word boundary lies beside it. -/
def isWordChar (c : Char) : Bool :=
  !isNewest c &&
    (isAlphabetic c || isDecimal c || isConnector c || isMark c || c == '\u200c' || c == '\u200d')

end BlitzDoc.Text
