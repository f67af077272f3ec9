import Stencil.Text.CodeTable

/-!
# Blank characters

The Unicode property `White_Space`: the characters that separate the words of an expression and
that are trimmed from the ends of a name.
-/

namespace Stencil.Text

def blankTable : CodeTable :=
  [(0x9, 0xD), (0x20, 0x20), (0x85, 0x85), (0xA0, 0xA0), (0x1680, 0x1680), (0x2000, 0x200A),
   (0x2028, 0x2029), (0x202F, 0x202F), (0x205F, 0x205F), (0x3000, 0x3000)]

def isBlank (char : Char) : Bool :=
  blankTable.contains char

/-- A text without the blank characters at its two ends. -/
def trimBlank (text : String) : String :=
  String.ofList ((text.toList.dropWhile isBlank).reverse.dropWhile isBlank).reverse

end Stencil.Text
