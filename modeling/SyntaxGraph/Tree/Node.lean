/-
# The tree of a program as labelled nodes

A node shows one element of a program, with the role it plays in the node
above it, and has a node below it for each part of the element. The tree is
what visitors walk over and what graphs are drawn from.

Key definitions: `Role`, `Node`, `Program.node`, `Node.follow`, `Node.preorder`.
-/
import SyntaxGraph.Decimal.Digits
import SyntaxGraph.Tree.Element

namespace SyntaxGraph

/-- What a node is to the node above it. -/
inductive Role where
  /-- Nothing is above the node. -/
  | root
  | function (index : Nat)
  | parameter (index : Nat)
  | declaration (index : Nat)
  | body (index : Nat)
  | statement (index : Nat)
  | argument (index : Nat)
  | type | size | location | expr | condition | thenBranch | elseBranch | loopBody
  | left | right | operand | index
  deriving DecidableEq, Repr

/-- The role in words; members of a list are counted from zero. -/
def Role.text : Role → String
  | root => ""
  | function i => "functions[" ++ Decimal.natText i ++ "]"
  | parameter i => "parameters[" ++ Decimal.natText i ++ "]"
  | declaration i => "declarations[" ++ Decimal.natText i ++ "]"
  | body i => "body[" ++ Decimal.natText i ++ "]"
  | statement i => "statements[" ++ Decimal.natText i ++ "]"
  | argument i => "arguments[" ++ Decimal.natText i ++ "]"
  | type => "type"
  | size => "size"
  | location => "location"
  | expr => "expr"
  | condition => "condition"
  | thenBranch => "then"
  | elseBranch => "else"
  | loopBody => "body"
  | left => "left"
  | right => "right"
  | operand => "operand"
  | index => "index"

/-- An element in its role, with the nodes below it in order. -/
inductive Node where
  | mk (role : Role) (element : Element) (children : List Node)
  deriving Repr

namespace Node

/-- The role of a node. -/
def role : Node → Role
  | mk role _ _ => role

/-- The element that a node shows. -/
def element : Node → Element
  | mk _ element _ => element

/-- The nodes below a node. -/
def children : Node → List Node
  | mk _ _ children => children

/-- The label of a node. -/
def label (n : Node) : String :=
  n.element.label

/-- The node that a path of indices leads to. -/
def follow : List Nat → Node → Option Node
  | [], n => some n
  | i :: path, n => n.children[i]?.bind (follow path)

mutual

/-- The nodes from a node downwards with their depths: each node before those
below it, and these in order. -/
def preorder (depth : Nat) : Node → List (Nat × Node)
  | mk role element children =>
    (depth, mk role element children) :: preorderAll (depth + 1) children

/-- The nodes of all the trees in turn. -/
def preorderAll (depth : Nat) : List Node → List (Nat × Node)
  | [] => []
  | n :: ns => preorder depth n ++ preorderAll depth ns

end

end Node

/-! ### The nodes of a program -/

mutual

/-- The tree of an expression. -/
def Expr.node (role : Role) (e : Expr) : Node :=
  .mk role (.expression e) <| match e with
    | .arith _ l r | .compare _ l r | .logical _ l r => [l.node .left, r.node .right]
    | .signed _ e | .not e => [e.node .operand]
    | .entry _ i => [i.node .index]
    | .call _ es => Expr.argumentNodes 0 es
    | .number _ | .var _ => []

/-- The trees of arguments, the first of which has the index `i`. -/
def Expr.argumentNodes (i : Nat) : List Expr → List Node
  | [] => []
  | e :: es => e.node (.argument i) :: Expr.argumentNodes (i + 1) es

end

mutual

/-- The tree of a statement. -/
def Stmt.node (role : Role) (s : Stmt) : Node :=
  .mk role (.statement s) <| match s with
    | .print _ | .leave | .skip => []
    | .assign l e | .update _ l e => [l.node .location, e.node .expr]
    | .ifThen c s => [c.node .condition, s.node .thenBranch]
    | .ifThenElse c s t => [c.node .condition, s.node .thenBranch, t.node .elseBranch]
    | .whileDo c s => [c.node .condition, s.node .loopBody]
    | .read l => [l.node .location]
    | .write e | .ret e => [e.node .expr]
    | .block ss => Stmt.memberNodes .statement 0 ss

/-- The trees of statements in a list, the first of which has the index `i`. -/
def Stmt.memberNodes (role : Nat → Role) (i : Nat) : List Stmt → List Node
  | [] => []
  | s :: ss => s.node (role i) :: Stmt.memberNodes role (i + 1) ss

end

/-- The tree of a type. -/
def TypeName.node (role : Role) (t : TypeName) : Node :=
  .mk role (.typeName t) <| match t.size with
    | some e => [e.node .size]
    | none => []

/-- The tree of a parameter. -/
def Declaration.parameterNode (role : Role) (d : Declaration) : Node :=
  .mk role (.parameter d) [d.type.node .type]

/-- The tree of a local declaration. -/
def Declaration.localNode (role : Role) (d : Declaration) : Node :=
  .mk role (.declaration d) [d.type.node .type]

/-- The tree of a function. -/
def Function.node (role : Role) (f : Function) : Node :=
  .mk role (.function f) <|
    f.parameters.mapIdx (fun i d => d.parameterNode (.parameter i)) ++
      f.declarations.mapIdx (fun i d => d.localNode (.declaration i)) ++
      Stmt.memberNodes .body 0 f.body

/-- The tree of a program. -/
def Program.node (p : Program) : Node :=
  .mk .root (.program p) (p.functions.mapIdx fun i f => f.node (.function i))

end SyntaxGraph
