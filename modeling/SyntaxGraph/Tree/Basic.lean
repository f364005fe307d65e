/-
# Programs

The tree of a program: functions with parameters, local declarations and a
body of statements over expressions.

Key definitions: `Expr`, `Stmt`, `TypeName`, `Declaration`, `Function`,
`Program`.
-/
import SyntaxGraph.Tree.Number
import SyntaxGraph.Tree.Operator

namespace SyntaxGraph

/-- Expressions and conditions. -/
inductive Expr where
  | arith (op : Arith) (left right : Expr)
  | signed (sign : Sign) (operand : Expr)
  | number (value : Number)
  | var (name : String)
  /-- An entry of an array. -/
  | entry (array : String) (index : Expr)
  | call (function : String) (arguments : List Expr)
  | compare (op : Comparison) (left right : Expr)
  | logical (op : Connective) (left right : Expr)
  | not (operand : Expr)
  deriving Repr

/-- Statements. -/
inductive Stmt where
  | print (text : String)
  | assign (target value : Expr)
  | update (op : Update) (target value : Expr)
  | ifThen (condition : Expr) (yes : Stmt)
  | ifThenElse (condition : Expr) (yes no : Stmt)
  | whileDo (condition : Expr) (body : Stmt)
  | read (target : Expr)
  | write (value : Expr)
  /-- Ends the function with a value. -/
  | ret (value : Expr)
  /-- Leaves the loop around it. -/
  | leave
  | skip
  | block (statements : List Stmt)
  deriving Repr

/-- The types of single values. -/
inductive BaseType where
  | int | float
  deriving DecidableEq, Repr

/-- The name of a base type. -/
def BaseType.text : BaseType → String
  | int => "INT"
  | float => "FLOAT"

/-- A base type, or an array of it with the size given by an expression. -/
structure TypeName where
  base : BaseType
  size : Option Expr
  deriving Repr

/-- A parameter or a local variable. -/
structure Declaration where
  name : String
  type : TypeName
  deriving Repr

/-- A function definition. -/
structure Function where
  name : String
  parameters : List Declaration
  declarations : List Declaration
  body : List Stmt
  deriving Repr

/-- A whole program. -/
structure Program where
  functions : List Function
  deriving Repr

/-- The expression names a place that can be assigned to. -/
def Expr.isLocation : Expr → Bool
  | var _ | entry .. => true
  | _ => false

/-- The type is an array. -/
def TypeName.isArray (t : TypeName) : Bool :=
  t.size.isSome

end SyntaxGraph
