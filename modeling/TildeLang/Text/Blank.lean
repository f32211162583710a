import TildeLang.Text.Ranges

/-!
# Blanks

A **blank** is a white-space character that ends no line: every character of
the Unicode property White_Space other than the carriage return and the line
feed.
-/

namespace TildeLang.Text

/-- The code points of the blanks. -/
def blankRanges : Ranges :=
  [(0x09, 0x09), (0x0B, 0x0C), (0x20, 0x20), (0x85, 0x85), (0xA0, 0xA0), (0x1680, 0x1680),
   (0x2000, 0x200A), (0x2028, 0x2029), (0x202F, 0x202F), (0x205F, 0x205F), (0x3000, 0x3000)]

/-- White space that ends no line. -/
def isBlank (c : Char) : Bool := blankRanges.holds c

end TildeLang.Text
