/-
# Syntax errors

A syntax error blames one token, or the end of the input, and says what was
expected in its place.

Key definitions: `Place`, `Expectation`, `SyntaxError`, `ParseError`,
`SyntaxError.message`.
-/
import SyntaxGraph.Token.Error

namespace SyntaxGraph

/-- Where in a program a certain token has to stand. -/
inductive Place where
  | functionStart | functionName | functionOpening | functionClosing | functionBody
  | parameterName | parameterColon
  | declarationName | declarationColon
  | sizeClosing
  | printOpening | printText | printClosing
  | ifThen | whileDo
  | readOpening | readClosing
  | writeOpening | writeClosing
  | target | indexClosing
  | argumentsClosing | parenthesis
  deriving DecidableEq, Repr

/-- The place in words, as they follow the token. -/
def Place.text : Place → String
  | functionStart => "to start a function definition"
  | functionName => "after 'fun'"
  | functionOpening => "after function name"
  | functionClosing => "after parameters"
  | functionBody => "before function body"
  | parameterName => "for parameter name"
  | parameterColon => "after parameter name"
  | declarationName => "for variable name"
  | declarationColon => "after variable name"
  | sizeClosing => "after array size"
  | printOpening => "after 'print'"
  | printText => "inside 'print'"
  | printClosing => "after print string"
  | ifThen => "after if condition"
  | whileDo => "after while condition"
  | readOpening => "after 'read'"
  | readClosing => "after read target"
  | writeOpening => "after 'write'"
  | writeClosing => "after write expression"
  | target => "as assignment target"
  | indexClosing => "after array index"
  | argumentsClosing => "after function arguments"
  | parenthesis => "after expression"

/-- What the grammar has instead of the token that is blamed. -/
inductive Expectation where
  /-- A token of this kind, in this place. -/
  | token (kind : Token.Kind) (place : Place)
  /-- Another statement of the body, or its end. -/
  | bodyEnd
  /-- Another statement of the block, or its end. -/
  | blockEnd
  | typeName
  | statement
  | assignment
  | expression
  /-- No second comparison. -/
  | comparisonEnd
  /-- An integer that fits a word. -/
  | integer
  /-- A float. -/
  | float
  /-- No deeper nesting. -/
  | nesting (limit : Nat)
  deriving DecidableEq, Repr

/-- The expectation in words. -/
def Expectation.text : Expectation → String
  | token kind place => kind.describe ++ " " ++ place.text
  | bodyEnd => "';' or 'end' after statement in function body"
  | blockEnd => "';' or 'end' after statement in block"
  | typeName => "type name 'int' or 'float'"
  | statement => "statement"
  | assignment => "'=', '+=' or '-=' after assignment target"
  | expression => "expression"
  | comparisonEnd =>
    "end of comparison (comparison operators do not chain; use 'and' or parentheses)"
  | integer => "a valid integer literal"
  | float => "a valid float literal"
  | nesting limit => "at most " ++ Decimal.natText limit ++ " levels of nesting"

/-- The first place where a token stream is no program. -/
structure SyntaxError where
  /-- The token to blame; none at the end of the input. -/
  found : Option Token
  expected : Expectation
  position : Position
  deriving DecidableEq, Repr

namespace SyntaxError

/-- What was found, in words. -/
def foundText (e : SyntaxError) : String :=
  match e.found with
  | some t => t.describe
  | none => Token.Kind.eof.describe

/-- The error in words. -/
def message (e : SyntaxError) : String :=
  "syntax error at line " ++ Decimal.natText e.position.line ++ ": unexpected " ++ e.foundText ++
    ", expected " ++ e.expected.text

/-- The end of the input is to blame. -/
def atEnd (e : SyntaxError) : Bool :=
  e.found.isNone

end SyntaxError

/-- Why a source text is no program. -/
inductive ParseError where
  | lexical (e : LexicalError)
  | grammar (e : SyntaxError)
  deriving DecidableEq, Repr

namespace ParseError

/-- The error in words. -/
def message : ParseError → String
  | lexical e => e.message
  | grammar e => e.message

/-- Where the error is. -/
def position : ParseError → Position
  | lexical e => e.position
  | grammar e => e.position

end ParseError
end SyntaxGraph
