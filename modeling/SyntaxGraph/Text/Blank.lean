/-
# Blank characters

The characters that may stand between two words of a source text: those with
the Unicode property White_Space.

Key definitions: `isBlank`.
-/
import SyntaxGraph.Text.Ranges

namespace SyntaxGraph
namespace Text

/-- The Unicode property White_Space. -/
def blanks : Ranges :=
  [ (0x0009, 0x000D), (0x0020, 0x0020), (0x0085, 0x0085), (0x00A0, 0x00A0),
    (0x1680, 0x1680), (0x2000, 0x200A), (0x2028, 0x2029), (0x202F, 0x202F),
    (0x205F, 0x205F), (0x3000, 0x3000) ]

/-- `c` is a blank. -/
def isBlank (c : Char) : Bool :=
  blanks.mem c

end Text
end SyntaxGraph
