/-
# Kinds of tokens

Names, literals, reserved words, operators and punctuation. A reserved word
or a symbol has one spelling, which its description shows in quotes.

Key definitions: `Token.Kind`, `Token.Kind.spelling`, `Token.Kind.describe`,
`Token.Kind.reserved`, `Token.Kind.symbols`.
-/

namespace SyntaxGraph
namespace Token

/-- What a token is, its text and place apart. -/
inductive Kind where
  | ident | intLiteral | floatLiteral | stringLiteral
  | funWord | beginWord | endWord | ifWord | thenWord | elseWord | whileWord | doWord
  | printWord | readWord | writeWord | returnWord | breakWord | skipWord
  | intWord | floatWord | notWord | andWord | orWord
  | plus | minus | star | slash
  | lt | le | gt | ge | eqEq | notEq
  | assign | plusAssign | minusAssign
  | lParen | rParen | lBracket | rBracket | comma | semicolon | colon
  | eof
  deriving DecidableEq, Repr

namespace Kind

/-- The one spelling of a reserved word (in lower case) or of a symbol; empty
for the kinds whose spelling varies and for the end of the input. -/
def spelling : Kind → String
  | ident | intLiteral | floatLiteral | stringLiteral | eof => ""
  | funWord => "fun"
  | beginWord => "begin"
  | endWord => "end"
  | ifWord => "if"
  | thenWord => "then"
  | elseWord => "else"
  | whileWord => "while"
  | doWord => "do"
  | printWord => "print"
  | readWord => "read"
  | writeWord => "write"
  | returnWord => "return"
  | breakWord => "break"
  | skipWord => "skip"
  | intWord => "int"
  | floatWord => "float"
  | notWord => "not"
  | andWord => "and"
  | orWord => "or"
  | plus => "+"
  | minus => "-"
  | star => "*"
  | slash => "/"
  | lt => "<"
  | le => "<="
  | gt => ">"
  | ge => ">="
  | eqEq => "=="
  | notEq => "!="
  | assign => "="
  | plusAssign => "+="
  | minusAssign => "-="
  | lParen => "("
  | rParen => ")"
  | lBracket => "["
  | rBracket => "]"
  | comma => ","
  | semicolon => ";"
  | colon => ":"

/-- The kind as messages name it. -/
def describe : Kind → String
  | ident => "identifier"
  | intLiteral => "integer literal"
  | floatLiteral => "float literal"
  | stringLiteral => "string literal"
  | eof => "end of input"
  | kind => "'" ++ kind.spelling ++ "'"

/-- The reserved words. -/
def reserved : List Kind :=
  [funWord, beginWord, endWord, ifWord, thenWord, elseWord, whileWord, doWord, printWord, readWord,
    writeWord, returnWord, breakWord, skipWord, intWord, floatWord, notWord, andWord, orWord]

/-- The operators and the punctuation, longer spellings first. -/
def symbols : List Kind :=
  [le, ge, eqEq, notEq, plusAssign, minusAssign, plus, minus, star, slash, lt, gt, assign,
    lParen, rParen, lBracket, rBracket, comma, semicolon, colon]

/-- The reserved word that `word` spells, in lower case throughout or in upper
case throughout. -/
def ofWord (word : List Char) : Option Kind :=
  let lower := word.map Char.toLower
  if word = lower ∨ word = word.map Char.toUpper then
    reserved.find? fun kind => kind.spelling.toList = lower
  else none

end Kind
end Token
end SyntaxGraph
