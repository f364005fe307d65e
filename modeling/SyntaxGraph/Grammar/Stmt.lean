/-
# The grammar of statements

The first token tells the kind of a statement; a name starts an assignment.
An `else` goes with the nearest `if` that is still open. Every statement opens
a level of nesting, for the statements and the expressions in it.

Key definitions: `statement`.
-/
import SyntaxGraph.Grammar.Expr

namespace SyntaxGraph
namespace Grammar

/-- The assignments: plain, or with the given update. -/
def assignmentOf : Token.Kind → Option (Option Update)
  | .assign => some none
  | .plusAssign => some (some .add)
  | .minusAssign => some (some .sub)
  | _ => none

section

variable (limit : Nat) (deeper : Option Level)

/-- What can be assigned to: a variable or an entry of an array. -/
def location : Parser Expr := do
  let t ← expect .ident .target
  if ← accept .lBracket then
    let i ← expression limit deeper
    let _ ← expect .rBracket .indexClosing
    return .entry t.text i
  else return .var t.text

/-- The text to print, in parentheses. -/
def printStatement : Parser Stmt := do
  let _ ← expect .lParen .printOpening
  let t ← expect .stringLiteral .printText
  let _ ← expect .rParen .printClosing
  return .print t.text

/-- The place to read into, in parentheses. -/
def readStatement : Parser Stmt := do
  let _ ← expect .lParen .readOpening
  let target ← location limit deeper
  let _ ← expect .rParen .readClosing
  return .read target

/-- The value to write, in parentheses. -/
def writeStatement : Parser Stmt := do
  let _ ← expect .lParen .writeOpening
  let value ← expression limit deeper
  let _ ← expect .rParen .writeClosing
  return .write value

/-- A target, a plain or updating assignment sign, and a value. -/
def assignment : Parser Stmt := do
  let target ← location limit deeper
  match ← choose assignmentOf with
  | some none => return .assign target (← expression limit deeper)
  | some (some op) => return .update op target (← expression limit deeper)
  | none => unexpected .assignment

/-- The branches of an `if`, where `inner` reads a statement in it. -/
def ifStatement (inner : Parser Stmt) : Parser Stmt := do
  let c ← condition limit deeper
  let _ ← expect .thenWord .ifThen
  let yes ← inner
  if ← accept .elseWord then return .ifThenElse c yes (← inner) else return .ifThen c yes

/-- The rest of a loop, where `inner` reads a statement in it. -/
def whileStatement (inner : Parser Stmt) : Parser Stmt := do
  let c ← condition limit deeper
  let _ ← expect .doWord .whileDo
  return .whileDo c (← inner)

/-- The rest of a block, where `inner` reads a statement in it. -/
def blockStatement (inner : Parser Stmt) : Parser Stmt := do
  let ss ← separated .semicolon inner
  if ← accept .endWord then return .block ss else unexpected .blockEnd

/-- A statement, one level down already, where `inner` reads a statement in
it. -/
def statementWithin (inner : Parser Stmt) : Parser Stmt := do
  if ← accept .printWord then printStatement
  else if ← accept .ifWord then ifStatement limit deeper inner
  else if ← accept .whileWord then whileStatement limit deeper inner
  else if ← accept .readWord then readStatement limit deeper
  else if ← accept .writeWord then writeStatement limit deeper
  else if ← accept .returnWord then return .ret (← expression limit deeper)
  else if ← accept .breakWord then return .leave
  else if ← accept .skipWord then return .skip
  else if ← accept .beginWord then blockStatement inner
  else if ← peek (· = .ident) then assignment limit deeper
  else unexpected .statement

end

/-- A statement, with `levels` levels of nesting left. -/
def statement (limit : Nat) : Nat → Parser Stmt
  | 0 => unexpected (.nesting limit)
  | levels + 1 => statementWithin limit (level limit levels) (statement limit levels)

end Grammar
end SyntaxGraph
