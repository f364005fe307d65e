/-
# The grammar of programs

A program is one or more functions, and a function a header, local
declarations and a body. Types may give the size of an array by an expression.

Key definitions: `Grammar.program`, `TokenStream.parse`, `parse`,
`parseSource`.
-/
import SyntaxGraph.Grammar.Stmt
import SyntaxGraph.Token.Scanner

namespace SyntaxGraph
namespace Grammar

section

variable (limit : Nat)

/-- A base type, and the size of an array of it. -/
def typeName : Parser TypeName := do
  match ← choose baseTypeOf with
  | none => unexpected .typeName
  | some base =>
    if ← accept .lBracket then
      let size ← expression limit (level limit limit)
      let _ ← expect .rBracket .sizeClosing
      return ⟨base, some size⟩
    else return ⟨base, none⟩
where
  /-- The words for base types. -/
  baseTypeOf : Token.Kind → Option BaseType
    | .intWord => some .int
    | .floatWord => some .float
    | _ => none

/-- A name, a colon and a type. -/
def declaration (name colon : Place) : Parser Declaration := do
  let t ← expect .ident name
  let _ ← expect .colon colon
  return ⟨t.text, ← typeName limit⟩

/-- The parameters of a function; there may be none. -/
def parameters : Parser (List Declaration) := do
  if ← peek (· = .rParen) then return []
  else separated .comma (declaration limit .parameterName .parameterColon)

/-- The next local declaration, if a name is in front. -/
def nextDeclaration : Parser (Option Declaration) := do
  if ← peek (· = .ident) then
    return some (← declaration limit .declarationName .declarationColon)
  else return none

/-- The local declarations of a function; a semicolon may follow the last. -/
def declarations : Parser (List Declaration) := do
  match ← nextDeclaration limit with
  | none => return []
  | some first =>
    let others ← collect do
      if ← accept .semicolon then nextDeclaration limit else return none
    return first :: others

/-- A function definition. -/
def function : Parser Function := do
  let _ ← expect .funWord .functionStart
  let name ← expect .ident .functionName
  let _ ← expect .lParen .functionOpening
  let ps ← parameters limit
  let _ ← expect .rParen .functionClosing
  let ds ← declarations limit
  let _ ← expect .beginWord .functionBody
  let body ← separated .semicolon (statement limit limit)
  if ← accept .endWord then return ⟨name.text, ps, ds, body⟩ else unexpected .bodyEnd

/-- Functions to the end of the stream, at least one. -/
def program : Parser Program := do
  settle
  let first ← function limit
  let others ← collect do
    if ← atEnd then return none else return some (← function limit)
  return ⟨first :: others⟩

end

/-- How many levels of nesting may be open at once. -/
def nestingLimit : Nat := 64

end Grammar

/-- The program that a stream holds, with at most `limit` levels of nesting. -/
def TokenStream.parse (limit : Nat) (s : TokenStream) : Except ParseError Program :=
  (Grammar.program limit).run' s

/-- The program that a list of items holds. -/
def parse (items : List Item) : Except ParseError Program :=
  (TokenStream.ofItems items).parse Grammar.nestingLimit

/-- The program that a source text holds. -/
def parseSource (source : String) : Except ParseError Program :=
  parse (Scanner.ofSource source).items

end SyntaxGraph
