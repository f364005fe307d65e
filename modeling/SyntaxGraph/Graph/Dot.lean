/-
# Graphs as DOT text

One line for each vertex, then one for each edge, between the lines that open
and close the graph. Texts stand in double quotes and on one line: quotes and
backslashes get a backslash, and a newline becomes `\n`.

Key definitions: `DotOptions`, `dotEscape`, `Graph.dot`.
-/
import SyntaxGraph.Graph.Basic
import SyntaxGraph.Text.Lines

namespace SyntaxGraph

/-- How a graph is written. -/
structure DotOptions where
  /-- The name of the graph. -/
  name : String
  /-- Whether edges show their labels. -/
  edgeLabels : Bool
  deriving DecidableEq, Repr

/-- The name "AST", and labels on the edges. -/
def DotOptions.default : DotOptions :=
  ⟨"AST", true⟩

/-- How a character is written inside quotes. -/
def dotEscape (c : Char) : List Char :=
  if c = '"' then ['\\', '"']
  else if c = '\\' then ['\\', '\\']
  else if c = '\n' then ['\\', 'n']
  else [c]

/-- The text in quotes. -/
def dotQuoted (text : String) : String :=
  String.ofList ('"' :: text.toList.flatMap dotEscape ++ ['"'])

/-- The name of a vertex. -/
def vertexName (id : Nat) : String :=
  "n" ++ Decimal.natText id

/-- The line of a vertex. -/
def Vertex.dot (v : Vertex) : String :=
  "    " ++ dotQuoted (vertexName v.id) ++ " [label=" ++ dotQuoted v.label ++ "];"

/-- The line of an edge. -/
def Edge.dot (edgeLabels : Bool) (e : Edge) : String :=
  let ends := "    " ++ dotQuoted (vertexName e.source) ++ " -> " ++ dotQuoted (vertexName e.target)
  if edgeLabels then ends ++ " [label=" ++ dotQuoted e.label ++ "];" else ends ++ ";"

/-- The lines of a graph. -/
def Graph.dotLines (g : Graph) (options : DotOptions) : List String :=
  ["digraph " ++ dotQuoted options.name ++ " \x7b", "    node [shape=box];"] ++
    g.vertices.toList.map Vertex.dot ++ g.edges.toList.map (Edge.dot options.edgeLabels) ++
    ["\x7d"]

/-- The graph as DOT text. -/
def Graph.dot (g : Graph) (options : DotOptions) : String :=
  Text.unlines (g.dotLines options)

end SyntaxGraph
