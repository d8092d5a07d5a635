import Reckoner.Text.CodeRanges

/-!
# Blank characters

White space and separators: the ASCII controls that move the pen, the four information
separators, and the space, line and paragraph separators of Unicode.
-/

namespace Reckoner.Text

def blankRanges : CodeRanges :=
  [(9, 13), (28, 32), (133, 133), (160, 160), (5760, 5760), (8192, 8202), (8232, 8233),
   (8239, 8239), (8287, 8287), (12288, 12288)]

/-- White space of any kind; the zero-width space is not one. -/
def isBlank (c : Char) : Bool :=
  blankRanges.contains c.toNat

/-- Space, tab, line feed, vertical tab, form feed and carriage return. -/
def isAsciiBlank (c : Char) : Bool :=
  c.toNat == 32 || (9 ≤ c.toNat && c.toNat ≤ 13)

end Reckoner.Text
