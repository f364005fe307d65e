/-
# Lexemes

The longest run of characters that makes a token at the start of a text.
Nothing here knows about positions: a reading says which characters it took,
so that positions can be counted afterwards.

Key definitions: `Reading`, `readNumeral`, `readString`, `readWord`,
`readSymbol`, `readLexeme`.
-/
import SyntaxGraph.Decimal.Read
import SyntaxGraph.Token.Error

namespace SyntaxGraph
namespace Token

/-- What stands at the start of a text. -/
inductive Reading where
  /-- A token with the characters it took and those that are left. -/
  | token (kind : Kind) (text : String) (spelling rest : List Char)
  /-- An error behind the characters `before`. -/
  | fault (before : List Char) (cause : LexicalError.Cause)
  /-- No more characters. -/
  | nothing
  deriving DecidableEq, Repr

/-! ### Numbers -/

/-- Letters, digits and the underscore. -/
def isWordChar (c : Char) : Bool :=
  c.isAlphanum || c = '_'

/-- The characters that may not follow a number directly. -/
def spoilsNumber (c : Char) : Bool :=
  c.isAlpha || c = '_' || c = '.'

/-- An exponent at the start of a text, empty if there is none: a letter `e`,
a sign or none, and digits. -/
def exponentOf : List Char → List Char
  | e :: cs =>
    if e = 'e' || e = 'E' then
      let sign := match cs with
        | c :: _ => if c = '+' || c = '-' then [c] else []
        | [] => []
      let ds := (cs.drop sign.length).takeWhile Char.isDigit
      if ds.isEmpty then [] else e :: (sign ++ ds)
    else []
  | [] => []

/-- The point and the digits behind it at the start of a text, empty if there
is no point. -/
def fractionOf : List Char → List Char
  | '.' :: cs => '.' :: cs.takeWhile Char.isDigit
  | _ => []

/-- The longest number at the start of a text, which begins with a digit or
with a point and a digit: the digits before the point, and the rest of it. -/
def numeralOf (cs : List Char) : List Char × List Char :=
  let whole := cs.takeWhile Char.isDigit
  let fraction := fractionOf (cs.drop whole.length)
  let exponent := exponentOf (cs.drop (whole.length + fraction.length))
  (whole, fraction ++ exponent)

/-- Reads the number at the start of a text. With a letter, an underscore or a
point right behind it, it is malformed together with all that follows of that
kind; so is an integer that does not fit a word. -/
def readNumeral (cs : List Char) : Reading :=
  let (whole, tail) := numeralOf cs
  let spelling := whole ++ tail
  let rest := cs.drop spelling.length
  if rest.head?.any spoilsNumber then
    let run := rest.takeWhile fun c => isWordChar c || c = '.'
    .fault [] (.invalidNumber (String.ofList (spelling ++ run)))
  else if !tail.isEmpty then .token .floatLiteral (String.ofList spelling) spelling rest
  else if (Decimal.readInt spelling).isSome then
    .token .intLiteral (String.ofList spelling) spelling rest
  else .fault [] (.invalidNumber (String.ofList spelling))

/-! ### Strings -/

/-- The character that a backslash and `c` stand for. -/
def unescape : Char → Option Char
  | 'n' => some '\n'
  | 't' => some '\t'
  | '\\' => some '\\'
  | '"' => some '"'
  | _ => none

/-- What follows an opening quote. -/
inductive StringBody where
  /-- The contents, their spelling, and the rest behind the closing quote. -/
  | closed (contents raw rest : List Char)
  /-- The line or the text ends behind `raw`. -/
  | unclosed (raw : List Char)
  /-- A backslash behind `raw` is followed by `c`, which makes no escape. -/
  | badEscape (raw : List Char) (c : Char)
  deriving DecidableEq, Repr

/-- The body with characters spelled `raw`, meaning `contents`, in front. -/
def StringBody.prepend (contents raw : List Char) : StringBody → StringBody
  | closed contents' raw' rest => closed (contents ++ contents') (raw ++ raw') rest
  | unclosed raw' => unclosed (raw ++ raw')
  | badEscape raw' c => badEscape (raw ++ raw') c

/-- Reads on behind an opening quote. -/
def stringBody : List Char → StringBody
  | [] => .unclosed []
  | '"' :: cs => .closed [] [] cs
  | '\n' :: _ => .unclosed []
  | ['\\'] => .unclosed ['\\']
  | '\\' :: '\n' :: _ => .unclosed ['\\']
  | '\\' :: c :: cs =>
    match unescape c with
    | some d => (stringBody cs).prepend [d] ['\\', c]
    | none => .badEscape [] c
  | c :: cs => (stringBody cs).prepend [c] [c]

/-- Reads the string whose opening quote has just been read. -/
def readString (cs : List Char) : Reading :=
  match stringBody cs with
  | .closed contents raw rest =>
    .token .stringLiteral (String.ofList contents) ('"' :: raw ++ ['"']) rest
  | .unclosed raw => .fault [] (.unterminatedString (String.ofList raw))
  | .badEscape raw c => .fault ('"' :: raw) (.invalidEscape c)

/-! ### Words and symbols -/

/-- Reads the name or reserved word at the start of a text. -/
def readWord (cs : List Char) : Reading :=
  let word := cs.takeWhile isWordChar
  .token ((Kind.ofWord word).getD .ident) (String.ofList word) word (cs.drop word.length)

/-- Reads the longest symbol at the start of a text. -/
def readSymbol (c : Char) (cs : List Char) : Reading :=
  match Kind.symbols.find? fun kind => kind.spelling.toList.isPrefixOf (c :: cs) with
  | some kind =>
    let spelling := kind.spelling.toList
    .token kind kind.spelling spelling ((c :: cs).drop spelling.length)
  | none => .fault [] (.unexpectedCharacter c)

/-- A number starts with a digit, or with a point and a digit. -/
def startsNumeral (c : Char) (cs : List Char) : Bool :=
  c.isDigit || c = '.' && cs.head?.any Char.isDigit

/-- Reads the token at the start of a text that starts with no blank and with
no closed comment, so that a comment there is not closed. -/
def readLexeme : List Char → Reading
  | [] => .nothing
  | '/' :: '*' :: _ => .fault [] .unterminatedComment
  | c :: cs =>
    if c = '"' then readString cs
    else if startsNumeral c cs then readNumeral (c :: cs)
    else if c.isAlpha then readWord (c :: cs)
    else readSymbol c cs

end Token
end SyntaxGraph
