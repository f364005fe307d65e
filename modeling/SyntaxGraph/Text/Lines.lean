/-
# Lines

A text made of lines, each of which is ended by a newline.

Key definitions: `unlines`.
-/

namespace SyntaxGraph
namespace Text

/-- The text of the lines. -/
def unlines (lines : List String) : String :=
  String.join (lines.map (· ++ "\n"))

end Text
end SyntaxGraph
