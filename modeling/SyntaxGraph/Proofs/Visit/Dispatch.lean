/-
# Visitors with operations of their own

A visitor has operations of its own for some nodes. A node that is given to it asks
for the operation of its kind. Where the visitor has none, the operation of a kind
falls back to the one of statements or of expressions, that one to the operation of
all nodes, and this to a failure. An operation is given the nodes below, ready to be
visited, and decides itself which of them it visits. Visiting changes a state, and a
failure keeps it as it is by then.

So a node is visited by the first operation of its chain that the visitor has, and it
fails at the node if there is none.

Key definitions: `Visit`, `Handlers`, `Handlers.visit`, `Handlers.accept`,
`Element.chain`, `Handlers.own`.
Key theorems: `Handlers.visit_eq`.
-/
import SyntaxGraph.Proofs.Action
import SyntaxGraph.Visit

namespace SyntaxGraph

/-- Visiting nodes, with a state that a failure keeps. -/
abbrev Visit (σ α : Type) :=
  Action Unsupported σ α

/-- The nodes below, each with its role and ready to be visited. -/
abbrev Below (σ α : Type) :=
  List (Role × Visit σ α)

/-- A visitor: its name, and the operations that it has of its own. -/
structure Handlers (σ α : Type) where
  name : String
  program : Option (Program → Below σ α → Visit σ α) := none
  function : Option (Function → Below σ α → Visit σ α) := none
  parameter : Option (Declaration → Below σ α → Visit σ α) := none
  declaration : Option (Declaration → Below σ α → Visit σ α) := none
  typeName : Option (TypeName → Below σ α → Visit σ α) := none
  /-- For the statements of one kind. -/
  ofStatement : Kind → Option (Stmt → Below σ α → Visit σ α) := fun _ => none
  /-- For the expressions of one kind. -/
  ofExpression : Kind → Option (Expr → Below σ α → Visit σ α) := fun _ => none
  statement : Option (Stmt → Below σ α → Visit σ α) := none
  expression : Option (Expr → Below σ α → Visit σ α) := none
  node : Option (Element → Below σ α → Visit σ α) := none

namespace Handlers

variable {σ α : Type} (v : Handlers σ α)

/-! ### Falling back -/

/-- The operation of all nodes. Without one, the visitor fails at the node. -/
def visitNode (x : Element) : Below σ α → Visit σ α :=
  (v.node.map (· x)).getD fun _ => throw ⟨v.name, x.kind⟩

/-- The operation of statements, or else that of all nodes. -/
def visitStatement (s : Stmt) : Below σ α → Visit σ α :=
  (v.statement.map (· s)).getD (v.visitNode (.statement s))

/-- The operation of expressions, or else that of all nodes. -/
def visitExpression (e : Expr) : Below σ α → Visit σ α :=
  (v.expression.map (· e)).getD (v.visitNode (.expression e))

/-- The operation of statements of the kind, or else that of statements. -/
def visitStatementOf (k : Kind) (s : Stmt) : Below σ α → Visit σ α :=
  ((v.ofStatement k).map (· s)).getD (v.visitStatement s)

/-- The operation of expressions of the kind, or else that of expressions. -/
def visitExpressionOf (k : Kind) (e : Expr) : Below σ α → Visit σ α :=
  ((v.ofExpression k).map (· e)).getD (v.visitExpression e)

/-- A statement asks for the operation of its kind. -/
def acceptStatement (s : Stmt) : Below σ α → Visit σ α :=
  match s with
  | .print _ => v.visitStatementOf .print s
  | .assign .. => v.visitStatementOf .assign s
  | .update .. => v.visitStatementOf .update s
  | .ifThen .. | .ifThenElse .. => v.visitStatementOf .ifThen s
  | .whileDo .. => v.visitStatementOf .whileDo s
  | .read _ => v.visitStatementOf .read s
  | .write _ => v.visitStatementOf .write s
  | .ret _ => v.visitStatementOf .ret s
  | .leave => v.visitStatementOf .leave s
  | .skip => v.visitStatementOf .skip s
  | .block _ => v.visitStatementOf .block s

/-- An expression asks for the operation of its kind. -/
def acceptExpression (e : Expr) : Below σ α → Visit σ α :=
  match e with
  | .arith .. => v.visitExpressionOf .arith e
  | .signed .. => v.visitExpressionOf .signed e
  | .number _ => v.visitExpressionOf .number e
  | .var _ => v.visitExpressionOf .var e
  | .entry .. => v.visitExpressionOf .entry e
  | .call .. => v.visitExpressionOf .call e
  | .compare .. => v.visitExpressionOf .compare e
  | .logical .. => v.visitExpressionOf .logical e
  | .not _ => v.visitExpressionOf .not e

/-- An element asks for the operation of its kind. -/
def visit (x : Element) : Below σ α → Visit σ α :=
  match x with
  | .program p => (v.program.map (· p)).getD (v.visitNode x)
  | .function f => (v.function.map (· f)).getD (v.visitNode x)
  | .parameter d => (v.parameter.map (· d)).getD (v.visitNode x)
  | .declaration d => (v.declaration.map (· d)).getD (v.visitNode x)
  | .typeName t => (v.typeName.map (· t)).getD (v.visitNode x)
  | .statement s => v.acceptStatement s
  | .expression e => v.acceptExpression e

mutual

/-- A node is given to the visitor, with the nodes below it. -/
def accept : Node → Visit σ α
  | .mk _ x children => v.visit x (acceptAll children)

/-- Nodes that are ready to be given to the visitor. -/
def acceptAll : List Node → Below σ α
  | [] => []
  | n :: ns => (n.role, accept n) :: acceptAll ns

end

theorem accept_eq (n : Node) : v.accept n = v.visit n.element (v.acceptAll n.children) := by
  cases n with
  | mk role x children => rfl

theorem acceptAll_eq_map (ns : List Node) : v.acceptAll ns = ns.map fun n => (n.role, v.accept n) := by
  induction ns with
  | nil => rfl
  | cons n ns ih => rw [acceptAll, ih, List.map_cons]

end Handlers

/-! ### Chains -/

/-- The operations that an element asks for, in order: the one of its kind, the one of
statements or of expressions, and the one of all nodes. -/
def Element.chain : Element → List Operation
  | statement s => [.kind s.kind, .statement, .node]
  | expression e => [.kind e.kind, .expression, .node]
  | x => [.kind x.kind, .node]

theorem Element.chain_eq (x : Element) : x.chain = x.kind.chain := by
  cases x with
  | statement s => cases s <;> rfl
  | expression e => cases e <;> rfl
  | _ => rfl

namespace Handlers

variable {σ α : Type} (v : Handlers σ α)

/-- The operation that the visitor has of its own for an element. -/
def own (x : Element) : Operation → Option (Below σ α → Visit σ α)
  | .kind _ => match x with
    | .program p => v.program.map (· p)
    | .function f => v.function.map (· f)
    | .parameter d => v.parameter.map (· d)
    | .declaration d => v.declaration.map (· d)
    | .typeName t => v.typeName.map (· t)
    | .statement s => (v.ofStatement s.kind).map (· s)
    | .expression e => (v.ofExpression e.kind).map (· e)
  | .statement => match x with
    | .statement s => v.statement.map (· s)
    | _ => none
  | .expression => match x with
    | .expression e => v.expression.map (· e)
    | _ => none
  | .node => v.node.map (· x)

theorem acceptStatement_eq (s : Stmt) : v.acceptStatement s = v.visitStatementOf s.kind s := by
  cases s <;> rfl

theorem acceptExpression_eq (e : Expr) : v.acceptExpression e = v.visitExpressionOf e.kind e := by
  cases e <;> rfl

theorem getD_findSome?_cons {α β : Type} (f : α → Option β) (a : α) (as : List α) (b : β) :
    ((a :: as).findSome? f).getD b = (f a).getD ((as.findSome? f).getD b) := by
  rw [List.findSome?_cons]
  cases f a <;> rfl

/-- **An element is visited by the first operation of its chain that the visitor has**,
and the visitor fails there if there is none. -/
theorem visit_eq (x : Element) :
    v.visit x = (x.chain.findSome? (v.own x)).getD fun _ => throw ⟨v.name, x.kind⟩ := by
  cases x with
  | statement s => simp only [visit, acceptStatement_eq, Element.chain, getD_findSome?_cons]; rfl
  | expression e => simp only [visit, acceptExpression_eq, Element.chain, getD_findSome?_cons]; rfl
  | _ => simp only [visit, Element.chain, getD_findSome?_cons]; rfl

end Handlers
end SyntaxGraph
