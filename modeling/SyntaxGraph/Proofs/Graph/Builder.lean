/-
# Building a graph by visiting

The graph of a program is built by a visitor with a state: the graph so far, and the number
of the next vertex. It has one operation, for all nodes, that adds a vertex for the node,
visits the nodes below and adds an edge to each of them once it has been visited.

Every element falls back to this operation, so building never fails, and the counter is
always the number of the vertices. What is built is the graph to which the tree is added.

Key definitions: `GraphBuilder`, `GraphBuilder.new`, `GraphBuilder.handlers`,
`Program.buildGraph`, `GraphBuilder.Adds`.
Key theorems: `GraphBuilder.adds`, `Program.buildGraph_eq`.
-/
import SyntaxGraph.Graph.Basic
import SyntaxGraph.Proofs.Tree.Preorder
import SyntaxGraph.Proofs.Visit.Dispatch

namespace SyntaxGraph

/-- The state of a visitor that builds a graph. -/
structure GraphBuilder where
  graph : Graph
  /-- The number of the next vertex. -/
  nextId : Nat

namespace GraphBuilder

/-- A builder that has not built anything. -/
def new : GraphBuilder :=
  ⟨.empty, 0⟩

/-- Gives the number of the next vertex, and counts it. -/
def allocate : Visit GraphBuilder Nat := do
  let id := (← get).nextId
  modify fun b => ⟨b.graph, id + 1⟩
  return id

/-- Adds a vertex with the number `id`. -/
def pushVertex (id : Nat) (label : String) : Visit GraphBuilder Unit :=
  modify fun b => ⟨⟨b.graph.vertices.push ⟨id, label⟩, b.graph.edges⟩, b.nextId⟩

/-- Visits nodes in turn, and adds an edge from the vertex `id` to each. -/
def link (id : Nat) : Below GraphBuilder Nat → Visit GraphBuilder Unit
  | [] => pure ()
  | n :: ns => do
    let child ← n.2
    modify fun b => ⟨b.graph.addEdge ⟨id, child, n.1.text⟩, b.nextId⟩
    link id ns

/-- Adds a vertex for an element, and the nodes below it with their edges. -/
def addElement (x : Element) (below : Below GraphBuilder Nat) : Visit GraphBuilder Nat := do
  let id ← allocate
  pushVertex id x.label
  link id below
  return id

/-- The builder as a visitor, which treats all nodes alike. -/
def handlers : Handlers GraphBuilder Nat where
  name := "GraphBuilder"
  node := some addElement

end GraphBuilder

/-- The graph of a program as a visitor builds it, or why that fails. -/
def Program.buildGraph (p : Program) : Except Unsupported Graph :=
  match (GraphBuilder.handlers.accept p.node).exec .new with
  | (.ok _, b) => .ok b.graph
  | (.error e, _) => .error e

namespace GraphBuilder

/-- A builder with a graph, whose counter is right. -/
def ofGraph (g : Graph) : GraphBuilder :=
  ⟨g, g.nextId⟩

/-- Every element falls back to the operation of all nodes. -/
theorem visit_handlers (x : Element) : handlers.visit x = addElement x := by
  rw [Handlers.visit_eq]
  cases x <;> rfl

/-- The visit of the tree adds it to a graph, and gives the vertex of its root. -/
def Adds (n : Node) : Prop :=
  ∀ g, (handlers.accept n).exec (.ofGraph g) = (.ok g.nextId, .ofGraph (g.add n))

theorem exec_link {ns : List Node} (h : ∀ n ∈ ns, Adds n) (id : Nat) :
    ∀ g, (link id (handlers.acceptAll ns)).exec (.ofGraph g) =
      (.ok (), .ofGraph (g.addBelow id ns)) := by
  induction ns with
  | nil => exact fun g => rfl
  | cons n ns ih =>
    intro g
    obtain ⟨hn, hns⟩ := List.forall_mem_cons.mp h
    rw [Handlers.acceptAll, link, Action.exec_bind, hn]
    exact ih hns _

/-- **Visiting a tree adds it to the graph.** -/
theorem adds (n : Node) : Adds n := by
  induction n using Node.induction with
  | mk role x children ih =>
    intro g
    have hvertex : GraphBuilder.mk (g.addVertex x.label) (g.nextId + 1) =
        .ofGraph (g.addVertex x.label) := by
      rw [GraphBuilder.ofGraph, Graph.nextId, Graph.nextId, Graph.addVertex, Array.size_push]
    have hlink := exec_link ih g.nextId (g.addVertex x.label)
    rw [Handlers.accept, visit_handlers, Graph.add]
    show ((do link g.nextId (handlers.acceptAll children); return g.nextId :
      Visit GraphBuilder Nat).exec ⟨g.addVertex x.label, g.nextId + 1⟩) = _
    rw [hvertex, Action.exec_bind, hlink]
    rfl

end GraphBuilder

/-- **Building the graph of a program never fails**, and it gives that graph. -/
theorem Program.buildGraph_eq (p : Program) : p.buildGraph = .ok p.graph := by
  have hnew : GraphBuilder.new = .ofGraph .empty := rfl
  rw [buildGraph, hnew, GraphBuilder.adds]
  rfl

end SyntaxGraph
