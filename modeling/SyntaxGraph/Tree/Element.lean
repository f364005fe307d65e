/-
# The elements of a program

Every piece of a program that is shown as a node of its tree: the program, its
functions, declarations, types, statements and expressions. An element has a
kind and, for most kinds, a detail, which make up its label.

Key definitions: `Kind`, `Category`, `Element`, `Element.kind`,
`Element.detail`, `Element.label`.
-/
import SyntaxGraph.Text.Quoted
import SyntaxGraph.Tree.Basic

namespace SyntaxGraph

/-- The kinds of elements. -/
inductive Kind where
  | program | function | parameter | declaration | typeName
  | print | assign | update | ifThen | whileDo | read | write | ret | leave | skip | block
  | arith | signed | number | var | entry | call | compare | logical | not
  deriving DecidableEq, Repr

/-- Statements, expressions and the rest. -/
inductive Category where
  | statement | expression | other
  deriving DecidableEq, Repr

namespace Kind

/-- The name of a kind. -/
def name : Kind → String
  | program => "Program"
  | function => "Function"
  | parameter => "Parameter"
  | declaration => "VarDeclaration"
  | typeName => "TypeName"
  | print => "Print"
  | assign => "Assignment"
  | update => "CompoundAssignment"
  | ifThen => "If"
  | whileDo => "While"
  | read => "Read"
  | write => "Write"
  | ret => "Return"
  | leave => "Break"
  | skip => "Skip"
  | block => "Block"
  | arith => "Binary"
  | signed => "Unary"
  | number => "NumberLiteral"
  | var => "Variable"
  | entry => "ArrayAccess"
  | call => "FunctionCall"
  | compare => "Relational"
  | logical => "Logical"
  | not => "Not"

/-- The category of a kind. -/
def category : Kind → Category
  | program | function | parameter | declaration | typeName => .other
  | print | assign | update | ifThen | whileDo | read | write | ret | leave | skip | block =>
    .statement
  | arith | signed | number | var | entry | call | compare | logical | not => .expression

/-- All kinds. -/
def all : List Kind :=
  [program, function, parameter, declaration, typeName,
    print, assign, update, ifThen, whileDo, read, write, ret, leave, skip, block,
    arith, signed, number, var, entry, call, compare, logical, not]

theorem mem_all (k : Kind) : k ∈ all := by
  cases k <;> decide

end Kind

/-- The name of a category. -/
def Category.name : Category → String
  | statement => "Statement"
  | expression => "Expression"
  | other => "Other"

/-- The kind of a statement. -/
def Stmt.kind : Stmt → Kind
  | print _ => .print
  | assign .. => .assign
  | update .. => .update
  | ifThen .. | ifThenElse .. => .ifThen
  | whileDo .. => .whileDo
  | read _ => .read
  | write _ => .write
  | ret _ => .ret
  | leave => .leave
  | skip => .skip
  | block _ => .block

/-- The kind of an expression. -/
def Expr.kind : Expr → Kind
  | arith .. => .arith
  | signed .. => .signed
  | number _ => .number
  | var _ => .var
  | entry .. => .entry
  | call .. => .call
  | compare .. => .compare
  | logical .. => .logical
  | not _ => .not

/-- What a statement shows beside its kind. -/
def Stmt.detail : Stmt → Option String
  | print text => some (Text.quoted text)
  | update op _ _ => some op.symbol
  | _ => none

/-- What an expression shows beside its kind. -/
def Expr.detail : Expr → Option String
  | arith op _ _ => some op.symbol
  | signed sign _ => some sign.symbol
  | number value => some value.text
  | var name => some name
  | entry array _ => some array
  | call function _ => some function
  | compare op _ _ => some op.symbol
  | logical op _ _ => some op.symbol
  | not _ => none

/-- What a type shows beside its kind. -/
def TypeName.detail (t : TypeName) : String :=
  if t.isArray then t.base.text ++ "[]" else t.base.text

/-- A piece of a program that is shown as a node. -/
inductive Element where
  | program (p : Program)
  | function (f : Function)
  | parameter (d : Declaration)
  | declaration (d : Declaration)
  | typeName (t : TypeName)
  | statement (s : Stmt)
  | expression (e : Expr)
  deriving Repr

namespace Element

/-- The kind of an element. -/
def kind : Element → Kind
  | program _ => .program
  | function _ => .function
  | parameter _ => .parameter
  | declaration _ => .declaration
  | typeName _ => .typeName
  | statement s => s.kind
  | expression e => e.kind

/-- What an element shows beside its kind. -/
def detail : Element → Option String
  | program _ => none
  | function f => some f.name
  | parameter d => some d.name
  | declaration d => some d.name
  | typeName t => some t.detail
  | statement s => s.detail
  | expression e => e.detail

/-- The kind, with the detail in parentheses if there is one. -/
def label (x : Element) : String :=
  match x.detail with
  | some detail => x.kind.name ++ "(" ++ detail ++ ")"
  | none => x.kind.name

end Element
end SyntaxGraph
