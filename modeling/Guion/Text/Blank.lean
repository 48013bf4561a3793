import Guion.Text.Ranges

/-!
# Blank characters

The characters with the Unicode property `White_Space`, which surround a line of input without
meaning anything.
-/

set_option autoImplicit false

namespace Guion.Text

/-- The blank characters. -/
def blanks : Ranges :=
  [(0x09, 0x0d), (0x20, 0x20), (0x85, 0x85), (0xa0, 0xa0), (0x1680, 0x1680), (0x2000, 0x200a),
   (0x2028, 0x2029), (0x202f, 0x202f), (0x205f, 0x205f), (0x3000, 0x3000)]

/-- The character is blank. -/
def isBlank (c : Char) : Bool := blanks.contains c

/-- The text without the blanks at both ends. -/
def trim (text : String) : String :=
  let front := text.toList.dropWhile isBlank
  String.ofList (front.reverse.dropWhile isBlank).reverse

end Guion.Text
