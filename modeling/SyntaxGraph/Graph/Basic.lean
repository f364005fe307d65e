/-
# The graph of a tree

Every node of a tree becomes a vertex that carries its label, and every link
between a node and one below it an edge that carries the role of the lower
one. Vertices are numbered in the order in which they are added, a node before
those below it; the edge to a node is added after everything below that node.

Several trees can be added to one graph, one after the other.

Key definitions: `Graph`, `Graph.add`, `Program.graph`.
-/
import SyntaxGraph.Tree.Node

namespace SyntaxGraph

/-- A numbered node of a graph. -/
structure Vertex where
  id : Nat
  label : String
  deriving DecidableEq, Repr

/-- A link between two vertices. -/
structure Edge where
  source : Nat
  target : Nat
  label : String
  deriving DecidableEq, Repr

/-- Vertices and edges in the order in which they were added. -/
structure Graph where
  vertices : Array Vertex
  edges : Array Edge
  deriving DecidableEq, Repr

namespace Graph

/-- The graph with nothing in it. -/
def empty : Graph :=
  ⟨#[], #[]⟩

/-- The number of the next vertex. -/
def nextId (g : Graph) : Nat :=
  g.vertices.size

/-- The graph with one more vertex. -/
def addVertex (g : Graph) (label : String) : Graph :=
  let id := g.nextId
  ⟨g.vertices.push ⟨id, label⟩, g.edges⟩

/-- The graph with one more edge. -/
def addEdge (g : Graph) (e : Edge) : Graph :=
  ⟨g.vertices, g.edges.push e⟩

mutual

/-- Adds a tree, whose root becomes the vertex `g.nextId`. -/
def add (g : Graph) : Node → Graph
  | .mk _ element children =>
    let id := g.nextId
    addBelow (g.addVertex element.label) id children

/-- Adds trees, each with an edge from the vertex `parent` to its root. -/
def addBelow (g : Graph) (parent : Nat) : List Node → Graph
  | [] => g
  | n :: ns =>
    let id := g.nextId
    addBelow ((add g n).addEdge ⟨parent, id, n.role.text⟩) parent ns

end

/-- Adds trees in turn, and says which vertices their roots are. -/
def addAll (g : Graph) : List Node → List Nat × Graph
  | [] => ([], g)
  | n :: ns =>
    let id := g.nextId
    let (ids, g') := addAll (g.add n) ns
    (id :: ids, g')

end Graph

/-- The graph of a program. -/
def Program.graph (p : Program) : Graph :=
  Graph.empty.add p.node

end SyntaxGraph
