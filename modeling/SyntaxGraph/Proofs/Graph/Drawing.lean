/-
# Reading DOT texts back

A DOT text is read line by line, and what is in quotes character by character:
a backslash makes a quote, a backslash or a newline of the character behind it,
and the first quote without one is the end. A line starts with the name of a
vertex; with an arrow and a second name behind it, it is the line of an edge.

The reader knows nothing of the graph or of the options, and gets back all that
the text of a graph shows, whatever characters its labels and its name have.

Key definitions: `Drawing`, `Graph.drawing`, `DotReader.inQuotes`, `DotReader.line`,
`DotReader.document`.
Key theorems: `DotReader.inQuotes_escaped`, `DotReader.line_vertex`, `DotReader.line_edge`,
`Graph.dot_reads_back`.
-/
import SyntaxGraph.Proofs.Graph.Faithful

namespace SyntaxGraph

/-- What a DOT text shows: the name of the graph, the vertices, and which vertices the
edges join, with labels or without. -/
structure Drawing where
  name : String
  vertices : List Vertex
  edges : List ((Nat × Nat) × Option String)
  deriving DecidableEq, Repr

/-- The label of an edge, if it is shown. -/
def Edge.shownLabel (edgeLabels : Bool) (e : Edge) : Option String :=
  if edgeLabels then some e.label else none

/-- What the DOT text of a graph has to show. -/
def Graph.drawing (g : Graph) (o : DotOptions) : Drawing :=
  ⟨o.name, g.vertices.toList, g.edges.toList.map fun e => (e.ends, e.shownLabel o.edgeLabels)⟩

/-- Splitting at the newlines gives the lines, and nothing behind the last of them. -/
theorem Text.splitOn_unlines : ∀ {ls : List String}, (∀ l ∈ ls, '\n' ∉ l.toList) →
    (Text.unlines ls).toList.splitOn '\n' = ls.map String.toList ++ [[]]
  | [], _ => rfl
  | l :: ls, h => by
    obtain ⟨hl, hls⟩ := List.forall_mem_cons.mp h
    rw [toList_unlines_cons, List.splitOn_append_cons_self_of_not_mem hl, splitOn_unlines hls]
    rfl

theorem Text.count_unlines : ∀ {ls : List String}, (∀ l ∈ ls, '\n' ∉ l.toList) →
    (Text.unlines ls).toList.count '\n' = ls.length
  | [], _ => rfl
  | l :: ls, h => by
    obtain ⟨hl, hls⟩ := List.forall_mem_cons.mp h
    rw [toList_unlines_cons, List.count_append, List.count_cons_self, count_unlines hls,
      List.count_eq_zero.mpr hl, Nat.zero_add]
    rfl

theorem Text.getLast?_unlines_concat (ls : List String) (l : String) :
    (Text.unlines (ls ++ [l])).toList.getLast? = some '\n' := by
  simp [Text.unlines]

namespace DotReader

/-! ### The reader -/

/-- What is behind the text `front`, if that is in front. -/
def behind (front : String) (cs : List Char) : Option (List Char) :=
  if front.toList.isPrefixOf cs then some (cs.drop front.toList.length) else none

/-- The character that a backslash makes of `c`. -/
def escaped : Char → Option Char
  | '"' => some '"'
  | '\\' => some '\\'
  | 'n' => some '\n'
  | _ => none

/-- Reads on behind an opening quote: the text through the first quote without a
backslash, and what is behind that. -/
def inQuotes : List Char → Option (List Char × List Char)
  | [] => none
  | '"' :: cs => some ([], cs)
  | '\\' :: c :: cs => do
    let d ← escaped c
    let (text, rest) ← inQuotes cs
    return (d :: text, rest)
  | c :: cs => do
    let (text, rest) ← inQuotes cs
    return (c :: text, rest)

/-- Reads a text with its quotes. -/
def quoted (cs : List Char) : Option (String × List Char) := do
  let (text, rest) ← inQuotes (← behind "\"" cs)
  return (String.ofList text, rest)

/-- Reads the name of a vertex. -/
def vertex (cs : List Char) : Option (Nat × List Char) := do
  let (name, rest) ← quoted cs
  let ds ← behind "n" name.toList
  if Decimal.isDigits ds then return (Decimal.value ds, rest) else none

/-- Reads the end of a line, with a label or without. -/
def label (cs : List Char) : Option (Option String) :=
  if cs = ";".toList then some none
  else do
    let (text, rest) ← quoted (← behind " [label=" cs)
    if rest = "];".toList then return some text else none

/-- What a line is about. -/
inductive Line where
  | vertex (v : Vertex)
  | edge (ends : Nat × Nat) (label : Option String)
  deriving DecidableEq, Repr

def Line.vertex? : Line → Option Vertex
  | vertex v => some v
  | edge _ _ => none

def Line.edge? : Line → Option ((Nat × Nat) × Option String)
  | vertex _ => none
  | edge ends label => some (ends, label)

/-- Reads the line of a vertex or of an edge. -/
def line (cs : List Char) : Option Line := do
  let (source, rest) ← vertex (← behind "    " cs)
  match behind " -> " rest with
  | some rest => do
    let (target, rest) ← vertex rest
    return .edge (source, target) (← label rest)
  | none => do
    let text ← (← label rest)
    return .vertex ⟨source, text⟩

/-- Reads the lines down to the one that closes the graph, which is the last. -/
def lines : List (List Char) → Option (List Line)
  | [] => none
  | cs :: rest =>
    if cs = ['\x7d'] ∧ rest = [[]] then some []
    else do return (← line cs) :: (← lines rest)

/-- Reads the line that opens the graph. -/
def heading (cs : List Char) : Option String := do
  let (name, rest) ← quoted (← behind "digraph " cs)
  if rest = " \x7b".toList then return name else none

/-- Reads a DOT text. -/
def document (text : String) : Option Drawing :=
  match text.toList.splitOn '\n' with
  | opening :: settings :: rest => do
    let name ← heading opening
    let ls ← if settings = "    node [shape=box];".toList then lines rest else none
    return ⟨name, ls.filterMap Line.vertex?, ls.filterMap Line.edge?⟩
  | _ => none

/-! ### What it reads -/

@[simp] theorem behind_append (front : String) (cs : List Char) :
    behind front (front.toList ++ cs) = some cs := by
  simp [behind]

/-- A text in quotes is read to the quote that ends it, whatever its characters are
and whatever is behind it. -/
theorem inQuotes_escaped (rest : List Char) : ∀ cs : List Char,
    inQuotes (cs.flatMap dotEscape ++ '"' :: rest) = some (cs, rest)
  | [] => by simp [inQuotes]
  | c :: cs => by
    have ih := inQuotes_escaped rest cs
    rw [List.flatMap_cons, List.append_assoc]
    by_cases hquote : c = '"'
    · subst hquote
      simp [dotEscape, inQuotes, escaped, ih]
    by_cases hbackslash : c = '\\'
    · subst hbackslash
      simp [dotEscape, inQuotes, escaped, ih]
    by_cases hnewline : c = '\n'
    · subst hnewline
      simp [dotEscape, inQuotes, escaped, ih]
    · rw [dotEscape, if_neg hquote, if_neg hbackslash, if_neg hnewline, List.singleton_append,
        inQuotes.eq_4 c _ (fun h => hquote h) (fun _ _ h _ => hbackslash h), ih]
      rfl

/-- A quote behind two backslashes is the end. -/
example : inQuotes "a\\\\\"];\"".toList = some ("a\\".toList, "];\"".toList) := by
  decide

theorem quoted_dotQuoted (text : String) (rest : List Char) :
    quoted ((dotQuoted text).toList ++ rest) = some (text, rest) := by
  have hcut : (dotQuoted text).toList ++ rest =
      "\"".toList ++ (text.toList.flatMap dotEscape ++ '"' :: rest) := by
    simp [dotQuoted]
  rw [quoted, hcut, behind_append]
  simp [inQuotes_escaped]

theorem vertex_vertexName (id : Nat) (rest : List Char) :
    vertex ((dotQuoted (vertexName id)).toList ++ rest) = some (id, rest) := by
  have hname : (vertexName id).toList = "n".toList ++ Decimal.digits id := by
    simp [vertexName, Decimal.natText]
  rw [vertex, quoted_dotQuoted]
  simp only [hname, behind_append, Option.bind_eq_bind, Option.bind_some,
    Decimal.isDigits_digits, Decimal.value_digits]
  rfl

theorem label_dotQuoted (text : String) :
    label (" [label=".toList ++ ((dotQuoted text).toList ++ "];".toList)) = some (some text) := by
  have hlabel : " [label=".toList ++ ((dotQuoted text).toList ++ "];".toList) ≠ ";".toList := by
    simp
  rw [label, if_neg hlabel, behind_append]
  simp only [Option.bind_eq_bind, Option.bind_some, quoted_dotQuoted]
  rfl

/-- The line of a vertex shows the vertex. -/
theorem line_vertex (v : Vertex) : line v.dot.toList = some (.vertex v) := by
  have hcut : v.dot.toList = "    ".toList ++ ((dotQuoted (vertexName v.id)).toList ++
      (" [label=".toList ++ ((dotQuoted v.label).toList ++ "];".toList))) := by
    simp only [Vertex.dot, String.toList_append, List.append_assoc]
  have harrow : ∀ cs, behind " -> " (" [label=".toList ++ cs) = none := fun cs => rfl
  rw [line, hcut, behind_append]
  simp only [Option.bind_eq_bind, Option.bind_some, vertex_vertexName, harrow, label_dotQuoted]
  rfl

/-- The line of an edge shows what the edge joins, and its label if there is one. -/
theorem line_edge (edgeLabels : Bool) (e : Edge) :
    line (e.dot edgeLabels).toList = some (.edge e.ends (e.shownLabel edgeLabels)) := by
  have hends : ∀ (rest : List Char) (shown : Option String), label rest = some shown →
      line ("    ".toList ++ ((dotQuoted (vertexName e.source)).toList ++ (" -> ".toList ++
        ((dotQuoted (vertexName e.target)).toList ++ rest)))) = some (.edge e.ends shown) := by
    intro rest shown hrest
    rw [line, behind_append]
    simp only [Option.bind_eq_bind, Option.bind_some, vertex_vertexName, behind_append, hrest]
    rfl
  cases edgeLabels with
  | true =>
    simpa [Edge.dot, Edge.shownLabel] using hends _ _ (label_dotQuoted e.label)
  | false =>
    simpa [Edge.dot, Edge.shownLabel] using hends ";".toList none rfl

theorem heading_dotQuoted (name : String) :
    heading ("digraph " ++ dotQuoted name ++ " \x7b").toList = some name := by
  rw [heading, String.toList_append, String.toList_append, List.append_assoc, behind_append]
  simp only [Option.bind_eq_bind, Option.bind_some, quoted_dotQuoted]
  rfl

/-- Lines that can be read are read one by one, down to the closing one. -/
theorem lines_map {α : Type} {write : α → String} {shown : α → Line}
    (h : ∀ a, line (write a).toList = some (shown a)) : ∀ (as : List α) {rest : List (List Char)}
    {ls : List Line}, lines rest = some ls →
      lines (as.map (fun a => (write a).toList) ++ rest) = some (as.map shown ++ ls)
  | [], _, _, hrest => hrest
  | a :: as, rest, ls, hrest => by
    have hopen : ¬ ((write a).toList = ['\x7d'] ∧ as.map (fun a => (write a).toList) ++ rest = [[]]) := by
      rintro ⟨hclose, -⟩
      have hline := h a
      rw [hclose] at hline
      cases hline
    rw [List.map_cons, List.cons_append, lines, if_neg hopen, h a, lines_map h as hrest]
    rfl

/-- The lines of vertices and then of edges tell both of them. -/
theorem filterMap_shown (vs : List Vertex) (es : List Edge) (shown : Edge → Option String) :
    let ls := vs.map Line.vertex ++ es.map fun e => Line.edge e.ends (shown e)
    ls.filterMap Line.vertex? = vs ∧ ls.filterMap Line.edge? = es.map fun e => (e.ends, shown e) := by
  simp [List.filterMap_append, List.filterMap_map, Function.comp_def, Line.vertex?, Line.edge?]

end DotReader

open DotReader in
/-- **A DOT text is read back**: the name of the graph, its vertices with their labels and
its edges, with labels if these are shown, all in order. It has a line for each vertex and
each edge, and three more. -/
theorem Graph.dot_reads_back (g : Graph) (o : DotOptions) :
    document (g.dot o) = some (g.drawing o) ∧
      (g.dot o).toList.count '\n' = 3 + g.vertices.size + g.edges.size ∧
      (g.dot o).toList.getLast? = some '\n' := by
  have hlines := g.newline_not_mem_dotLines o
  refine ⟨?_, ?_, Text.getLast?_unlines_concat _ _⟩
  · have hbody : lines (g.vertices.toList.map (fun v => v.dot.toList) ++
        (g.edges.toList.map (fun e => (e.dot o.edgeLabels).toList) ++ [['\x7d'], []])) =
        some (g.vertices.toList.map Line.vertex ++
          (g.edges.toList.map (fun e => Line.edge e.ends (e.shownLabel o.edgeLabels)) ++ [])) :=
      lines_map line_vertex _ (lines_map (line_edge o.edgeLabels) _ rfl)
    rw [List.append_nil] at hbody
    obtain ⟨hvertices, hedges⟩ :=
      filterMap_shown g.vertices.toList g.edges.toList (Edge.shownLabel o.edgeLabels)
    have hsplit : (g.dot o).toList.splitOn '\n' =
        ("digraph " ++ dotQuoted o.name ++ " \x7b").toList :: "    node [shape=box];".toList ::
          (g.vertices.toList.map (fun v => v.dot.toList) ++
            (g.edges.toList.map (fun e => (e.dot o.edgeLabels).toList) ++ [['\x7d'], []])) := by
      rw [Graph.dot, Text.splitOn_unlines hlines]
      simp [dotLines, Function.comp_def]
    simp only [document, hsplit, heading_dotQuoted, hbody, Option.bind_eq_bind, Option.bind_some,
      if_true, hvertices, hedges]
    rfl
  · rw [Graph.dot, Text.count_unlines hlines]
    simp [dotLines]
    omega

end SyntaxGraph
