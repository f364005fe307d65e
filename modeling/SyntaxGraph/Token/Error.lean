/-
# Lexical errors

What makes a source text unreadable as tokens, and where.

Key definitions: `LexicalError`, `LexicalError.message`, `LexicalError.text`,
`Item`.
-/
import SyntaxGraph.Token.Basic

namespace SyntaxGraph

/-- Why the characters at hand are no token. -/
inductive LexicalError.Cause where
  /-- No token starts with this character. -/
  | unexpectedCharacter (character : Char)
  /-- The line or the text ends before the string does; `raw` is what follows the opening quote. -/
  | unterminatedString (raw : String)
  /-- No escape has this character behind the backslash. -/
  | invalidEscape (character : Char)
  /-- A run of characters that starts as a number is none. -/
  | invalidNumber (literal : String)
  /-- A block comment is not closed. -/
  | unterminatedComment
  deriving DecidableEq, Repr

/-- A cause and its place. -/
structure LexicalError where
  cause : LexicalError.Cause
  position : Position
  deriving DecidableEq, Repr

namespace LexicalError

/-- The part of the source text that is at fault. -/
def text (e : LexicalError) : String :=
  match e.cause with
  | .unexpectedCharacter c => c.toString
  | .unterminatedString raw => "\"" ++ raw
  | .invalidEscape c => "\\" ++ c.toString
  | .invalidNumber literal => literal
  | .unterminatedComment => "/*"

/-- The error in words. -/
def message (e : LexicalError) : String :=
  let line := Decimal.natText e.position.line
  match e.cause with
  | .unexpectedCharacter c => "unexpected character '" ++ c.toString ++ "' at line " ++ line
  | .unterminatedString raw =>
    "unterminated string literal \"" ++ raw ++ "\" starting at line " ++ line
  | .invalidEscape c => "unknown escape sequence '\\" ++ c.toString ++ "' at line " ++ line
  | .invalidNumber literal => "malformed numeric literal '" ++ literal ++ "' at line " ++ line
  | .unterminatedComment => "unterminated block comment starting at line " ++ line

end LexicalError

/-- One step of a source text read as tokens: a token, or the error that ends
the reading. -/
abbrev Item := Except LexicalError Token

end SyntaxGraph
