/-
# Tokens

A token has a kind, a text and the position of its first character. The text
is the spelling in the source, for a string literal its contents.

Key definitions: `Token`, `Token.describe`.
-/
import SyntaxGraph.Position
import SyntaxGraph.Text.Quoted
import SyntaxGraph.Token.Kind

namespace SyntaxGraph

/-- A word of the source text. -/
structure Token where
  kind : Token.Kind
  text : String
  position : Position
  deriving DecidableEq, Repr

namespace Token

/-- The token that stands for the end of the input. -/
def endOfInput (position : Position) : Token :=
  ⟨.eof, "", position⟩

/-- The token as messages name it. -/
def describe (t : Token) : String :=
  match t.kind with
  | .ident => "identifier '" ++ t.text ++ "'"
  | .intLiteral | .floatLiteral => "number " ++ t.text
  | .stringLiteral => "string literal " ++ Text.quoted t.text
  | .eof => "end of input"
  | _ => "'" ++ t.text ++ "'"

end Token
end SyntaxGraph
