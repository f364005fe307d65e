/-
# Quoted text

A text is shown between double quotes on one line: the quote, the backslash
and the usual controls get a backslash, and every other character that does
not show by itself is written as its code point in hexadecimal.

Key definitions: `showsByItself`, `escape`, `quoted`.
-/
import SyntaxGraph.Text.DefaultIgnorable
import SyntaxGraph.Text.GraphemeExtend
import SyntaxGraph.Text.Printable

namespace SyntaxGraph
namespace Text

/-- The code point of `c` in lower-case hexadecimal, as `\u` and braces. -/
def escapeCode (c : Char) : List Char :=
  ['\\', 'u', '\x7b'] ++ Nat.toDigits 16 c.toNat ++ ['\x7d']

/-- The half-width voicing marks of the kana. They extend the letter before
them, but fill a cell of their own. -/
def isHalfWidthVoicing (c : Char) : Bool :=
  c = '\uff9e' || c = '\uff9f'

/-- `c` has a picture that stands on its own. -/
def showsByItself (c : Char) : Bool :=
  isPrintable c && !isDefaultIgnorable c && (!isGraphemeExtend c || isHalfWidthVoicing c)

/-- How `c` is written inside quotes. -/
def escape (c : Char) : List Char :=
  if c = '\x00' then ['\\', '0']
  else if c = '\t' then ['\\', 't']
  else if c = '\r' then ['\\', 'r']
  else if c = '\n' then ['\\', 'n']
  else if c = '\\' then ['\\', '\\']
  else if c = '"' then ['\\', '"']
  else if showsByItself c then [c]
  else escapeCode c

/-- The text between double quotes. -/
def quoted (text : String) : String :=
  String.ofList ('"' :: text.toList.flatMap escape ++ ['"'])

end Text
end SyntaxGraph
