/-
# Sets of characters given by ranges

A property of characters that comes from a table is a list of inclusive
ranges of code points. `Ranges.mem` says whether a character is in one.

Key definitions: `Ranges`, `Ranges.mem`.
-/

namespace SyntaxGraph
namespace Text

/-- Inclusive ranges of code points, in increasing order. -/
abbrev Ranges := List (Nat × Nat)

/-- `c` lies in one of the ranges. -/
def Ranges.mem (c : Char) (ranges : Ranges) : Bool :=
  ranges.any fun range => range.1 ≤ c.toNat && c.toNat ≤ range.2

end Text
end SyntaxGraph
