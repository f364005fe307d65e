/-
# Walking with a partial visitor

A visitor handles some operations. A node asks first for the operation of its
own kind, then for the one of its category, if it is a statement or an
expression, and last for the one of all nodes; the first that the visitor
handles is done. Doing it notes the node and then walks the nodes below. A
node with no operation handled ends the walk.

Key definitions: `Operation`, `Kind.chain`, `Visitor`, `Visitor.walk`.
-/
import SyntaxGraph.Tree.Node

namespace SyntaxGraph

/-- What a visitor can do: something for one kind, for all statements, for all
expressions, or for all nodes. -/
inductive Operation where
  | kind (k : Kind)
  | statement
  | expression
  | node
  deriving DecidableEq, Repr

/-- The operation of a category, if it has one of its own. -/
def Category.operation : Category → List Operation
  | statement => [.statement]
  | expression => [.expression]
  | other => []

/-- The operations that a node of this kind asks for, in order. -/
def Kind.chain (k : Kind) : List Operation :=
  .kind k :: k.category.operation ++ [.node]

/-- A name and the operations handled. -/
structure Visitor where
  name : String
  handles : Operation → Bool

/-- The walk came to a node that the visitor does not handle. -/
structure Unsupported where
  visitor : String
  kind : Kind
  deriving DecidableEq, Repr

/-- The error in words. -/
def Unsupported.message (e : Unsupported) : String :=
  e.visitor ++ " does not support " ++ e.kind.name ++ " nodes"

/-- What a walk has done: the operations with the labels of their nodes in
order, and how many nodes these are, or why the walk ended. -/
structure Walk where
  log : List (Operation × String)
  outcome : Except Unsupported Nat

namespace Walk

/-- A walk over nothing. -/
def nothing : Walk :=
  ⟨[], .ok 0⟩

/-- The walk to a node that cannot be handled. -/
def failure (e : Unsupported) : Walk :=
  ⟨[], .error e⟩

/-- One operation, then the walk `r`. -/
def step (op : Operation) (label : String) (r : Walk) : Walk :=
  ⟨(op, label) :: r.log, r.outcome.map (1 + ·)⟩

/-- The first walk, then the second unless the first has ended. -/
def andThen (r : Walk) (next : Walk) : Walk :=
  match r.outcome with
  | .error _ => r
  | .ok n => ⟨r.log ++ next.log, next.outcome.map (n + ·)⟩

end Walk

namespace Visitor

/-- The operation that the visitor does for a node of this kind. -/
def operation (v : Visitor) (k : Kind) : Option Operation :=
  k.chain.find? v.handles

mutual

/-- Walks a tree from its root. -/
def walk (v : Visitor) : Node → Walk
  | .mk _ element children =>
    match v.operation element.kind with
    | some op => .step op element.label (walkAll v children)
    | none => .failure ⟨v.name, element.kind⟩

/-- Walks trees in turn. -/
def walkAll (v : Visitor) : List Node → Walk
  | [] => .nothing
  | n :: ns => (walk v n).andThen (walkAll v ns)

end

end Visitor
end SyntaxGraph
