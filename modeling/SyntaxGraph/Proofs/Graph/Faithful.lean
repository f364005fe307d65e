/-
# The DOT text of a program says what the program is

The lines of a text show its vertices and, with or without labels, which
vertices its edges join. There is one vertex more than there are edges, so the
lines of the vertices end where those of the edges begin.

The labels in order and the ends of the edges tell a tree: the edges of the
first child are those before the first that starts at the root, their number
gives the size of the child, and so the labels that belong to it. If no number
is a float, labels and pieces tell the elements.

Key definitions: `Edge.ends`, `Node.Integral`, `Node.Alike`.
Key theorems: `Graph.shown_of_dot_eq`, `Node.element_eq_of_alike`, `Program.dot_eq_iff`.
-/
import SyntaxGraph.Proofs.Graph.Links
import SyntaxGraph.Proofs.Tree.Pieces

namespace SyntaxGraph

/-! ### Lines -/

theorem Vertex.dot_injective : Function.Injective Vertex.dot := by
  intro v w h
  simp only [Vertex.dot, String.append_assoc, String.append_right_inj] at h
  obtain ⟨hname, hrest⟩ := dotQuoted_append_inj h
  obtain ⟨hlabel, -⟩ := dotQuoted_append_inj ((String.append_right_inj _).mp hrest)
  have hid : v.id = w.id := vertexName_injective hname
  cases v
  cases w
  cases hid
  cases hlabel
  rfl

/-- The vertices that an edge joins. -/
def Edge.ends (e : Edge) : Nat × Nat :=
  (e.source, e.target)

/-- The line of an edge shows what it joins, with its label or without. -/
theorem Edge.ends_eq_of_dot_eq {labels : Bool} {e f : Edge} (h : e.dot labels = f.dot labels) :
    e.ends = f.ends := by
  have hline : ∀ e : Edge, ∃ rest, e.dot labels = "    " ++ (dotQuoted (vertexName e.source) ++
      (" -> " ++ (dotQuoted (vertexName e.target) ++ rest))) := by
    intro e
    unfold Edge.dot
    split
    · exact ⟨" [label=" ++ (dotQuoted e.label ++ "];"), by simp only [String.append_assoc]⟩
    · exact ⟨";", by simp only [String.append_assoc]⟩
  obtain ⟨rest, he⟩ := hline e
  obtain ⟨rest', hf⟩ := hline f
  rw [he, hf, String.append_right_inj] at h
  obtain ⟨hsource, h⟩ := dotQuoted_append_inj h
  obtain ⟨htarget, -⟩ := dotQuoted_append_inj ((String.append_right_inj _).mp h)
  exact Prod.ext (vertexName_injective hsource) (vertexName_injective htarget)

/-- No line of a graph holds a newline. -/
theorem Graph.newline_not_mem_dotLines (g : Graph) (o : DotOptions) :
    ∀ l ∈ g.dotLines o, '\n' ∉ l.toList := by
  have hvertex : ∀ v : Vertex, '\n' ∉ v.dot.toList := by
    intro v
    simp [Vertex.dot, newline_not_mem_dotQuoted]
  have hedge : ∀ e : Edge, '\n' ∉ (e.dot o.edgeLabels).toList := by
    intro e
    unfold Edge.dot
    split <;> simp [newline_not_mem_dotQuoted]
  have hopening : '\n' ∉ ("digraph " ++ dotQuoted o.name ++ " \x7b").toList := by
    simp [newline_not_mem_dotQuoted]
  intro l hl
  simp only [dotLines, List.mem_append, List.mem_cons, List.mem_map, List.not_mem_nil,
    or_false] at hl
  rcases hl with (((rfl | rfl) | ⟨v, -, rfl⟩) | ⟨e, -, rfl⟩) | rfl
  · exact hopening
  · decide
  · exact hvertex v
  · exact hedge e
  · decide

/-- A text shows the vertices of a graph and what its edges join, if there is one
vertex more than there are edges. -/
theorem Graph.shown_of_dot_eq {g h : Graph} {o : DotOptions}
    (hg : g.edges.toList.length + 1 = g.vertices.toList.length)
    (hh : h.edges.toList.length + 1 = h.vertices.toList.length) (heq : g.dot o = h.dot o) :
    g.vertices.toList = h.vertices.toList ∧
      g.edges.toList.map Edge.ends = h.edges.toList.map Edge.ends := by
  have hlines : g.dotLines o = h.dotLines o :=
    Text.unlines_inj (g.newline_not_mem_dotLines o) (h.newline_not_mem_dotLines o) heq
  unfold dotLines at hlines
  have hmiddle := List.append_cancel_right hlines
  rw [List.append_assoc, List.append_assoc] at hmiddle
  have hrest := List.append_cancel_left hmiddle
  have hcount : (g.vertices.toList.map Vertex.dot).length =
      (h.vertices.toList.map Vertex.dot).length := by
    have htotal := congrArg List.length hrest
    simp only [List.length_append, List.length_map] at htotal ⊢
    omega
  obtain ⟨hvertices, hedges⟩ := List.append_inj hrest hcount
  exact ⟨(List.map_inj_right @Vertex.dot_injective).mp hvertices,
    map_eq_map_of (fun _ _ _ _ => Edge.ends_eq_of_dot_eq) hedges⟩

/-! ### Trees -/

namespace Node

theorem map_label_vertices (first : Nat) (ms : List Node) :
    (vertices first ms).map Vertex.label = ms.map label := by
  refine List.ext_getElem (by simp [vertices]) fun i hi _ => ?_
  simp [vertices]

/-- No number in the tree is a float. -/
def Integral (n : Node) : Prop :=
  ∀ m ∈ n.nodes, m.element.isFloat = false

instance (n : Node) : Decidable n.Integral :=
  inferInstanceAs (Decidable (∀ m ∈ n.nodes, m.element.isFloat = false))

theorem Integral.element {n : Node} (h : n.Integral) : n.element.isFloat = false := by
  refine h n ?_
  cases n
  rw [nodes_mk]
  exact List.mem_cons_self ..

theorem Integral.of_mem_children {n c : Node} (h : n.Integral) (hc : c ∈ n.children) :
    c.Integral := by
  intro m hm
  refine h m ?_
  cases n
  rw [nodes_mk]
  exact List.mem_cons_of_mem _ (List.mem_flatMap.mpr ⟨c, hc, hm⟩)

/-- The trees have the same labels, and edges with the same ends. -/
structure Alike (root : Nat) (n m : Node) : Prop where
  labels : n.nodes.map label = m.nodes.map label
  ends : (n.links root).map Edge.ends = (m.links root).map Edge.ends

/-- The edges of the first of some trees are those before the first edge that starts
at the vertex above. -/
theorem ends_linksBelow_inj {parent next : Nat} {n m : Node} {ns ms : List Node}
    (hnext : parent < next)
    (h : (linksBelow parent next (n :: ns)).map Edge.ends =
      (linksBelow parent next (m :: ms)).map Edge.ends) :
    (n.links next).map Edge.ends = (m.links next).map Edge.ends ∧
      (linksBelow parent (next + n.size) ns).map Edge.ends =
        (linksBelow parent (next + m.size) ms).map Edge.ends := by
  have hinside : ∀ n : Node, ∀ x ∈ (n.links next).map Edge.ends, decide (x.1 ≠ parent) = true := by
    intro n x hx
    obtain ⟨e, he, rfl⟩ := List.mem_map.mp hx
    have hbounds := n.bounds_of_mem_links he
    exact decide_eq_true (by show e.source ≠ parent; omega)
  have hstop : ∀ rest : List (Nat × Nat),
      (((parent, next) :: rest).head?.any fun x => decide (x.1 ≠ parent)) = false := by
    intro rest
    exact decide_eq_false (not_not_intro rfl)
  rw [linksBelow, linksBelow, List.map_append, List.map_append, List.map_cons, List.map_cons] at h
  obtain ⟨hfirst, hrest⟩ := run_append_inj (hinside n) (hinside m) (hstop _) (hstop _) h
  exact ⟨hfirst, (List.cons.inj hrest).2⟩

/-- Trees below a vertex show the same elements if those that are alike do. -/
theorem elements_eq_of_alike {parent : Nat} : ∀ {ns ms : List Node} {next : Nat},
    (∀ n ∈ ns, ∀ m ∈ ms, ∀ root, Alike root n m → n.element = m.element) → parent < next →
    (ns.flatMap nodes).map label = (ms.flatMap nodes).map label →
    (linksBelow parent next ns).map Edge.ends = (linksBelow parent next ms).map Edge.ends →
    ns.map element = ms.map element
  | [], [], _, _, _, _, _ => rfl
  | [], m :: ms, next, _, _, _, hends => by simp [linksBelow] at hends
  | n :: ns, [], next, _, _, _, hends => by simp [linksBelow] at hends
  | n :: ns, m :: ms, next, h, hnext, hlabels, hends => by
    obtain ⟨hfirst, hrest⟩ := ends_linksBelow_inj hnext hends
    have hsize : n.size = m.size := by
      have hlength := congrArg List.length hfirst
      rw [List.length_map, List.length_map] at hlength
      have hn := n.length_links next
      have hm := m.length_links next
      omega
    rw [List.flatMap_cons, List.flatMap_cons, List.map_append, List.map_append] at hlabels
    obtain ⟨hlabel, hlabels⟩ := List.append_inj hlabels
      (by rw [List.length_map, List.length_map]; exact hsize)
    have hhead : n.element = m.element :=
      h n (List.mem_cons_self ..) m (List.mem_cons_self ..) next ⟨hlabel, hfirst⟩
    have htail : ns.map element = ms.map element := by
      refine elements_eq_of_alike (fun n hn m hm =>
        h n (List.mem_cons_of_mem _ hn) m (List.mem_cons_of_mem _ hm))
        (Nat.lt_add_right n.size hnext) hlabels ?_
      rw [hrest, hsize]
    rw [List.map_cons, List.map_cons, hhead, htail]

/-- Alike trees without floats show the same element. -/
theorem element_eq_of_alike (n : Node) : n.Proper → n.Integral → ∀ {m : Node} {root : Nat},
    m.Proper → m.Integral → Alike root n m → n.element = m.element := by
  induction n using Node.induction with
  | mk role x children ih =>
    intro hn hnint m root hm hmint h
    cases m with
    | mk role' y children' =>
      obtain ⟨hlabels, hends⟩ := h
      rw [nodes_mk, nodes_mk, List.map_cons, List.map_cons] at hlabels
      obtain ⟨hlabel, hlabels⟩ := List.cons.inj hlabels
      obtain ⟨hkind, hdetail⟩ : x.kind = y.kind ∧ x.detail = y.detail := Element.label_inj hlabel
      have hbelow : ∀ c ∈ children, ∀ d ∈ children', ∀ root, Alike root c d →
          c.element = d.element :=
        fun c hc d hd root => ih c hc (hn.of_mem_children hc) (hnint.of_mem_children hc)
          (hm.of_mem_children hd) (hmint.of_mem_children hd)
      have helements : children.map element = children'.map element :=
        elements_eq_of_alike hbelow (Nat.lt_succ_self root) hlabels hends
      have hpieces : x.pieces = y.pieces := by
        calc x.pieces = children.map element := hn.elements_children.symm
          _ = children'.map element := helements
          _ = y.pieces := hm.elements_children
      exact Element.eq_of_pieces hnint.element hmint.element hkind hdetail hpieces

end Node

/-! ### Programs -/

/-- The graph of a program has the vertices and edges of its tree. -/
theorem Program.graph_eq (p : Program) :
    p.graph.vertices.toList = Node.vertices 0 p.node.nodes ∧
      p.graph.edges.toList = p.node.links 0 := by
  have hadd := Graph.extends_add p.node Graph.empty
  exact ⟨hadd.vertices, hadd.edges⟩

/-- **The DOT text loses nothing.** Programs without floats have the same text, with or
without labels on the edges, only if they are the same. -/
theorem Program.dot_eq_iff {p q : Program} (hp : p.node.Integral) (hq : q.node.Integral)
    (o : DotOptions) : p.graph.dot o = q.graph.dot o ↔ p = q := by
  constructor
  · intro h
    have hcount : ∀ p : Program,
        p.graph.edges.toList.length + 1 = p.graph.vertices.toList.length := by
      intro p
      rw [p.graph_eq.1, p.graph_eq.2, p.node.length_links, Node.length_vertices]
      rfl
    obtain ⟨hvertices, hends⟩ := Graph.shown_of_dot_eq (hcount p) (hcount q) h
    rw [p.graph_eq.1, q.graph_eq.1] at hvertices
    rw [p.graph_eq.2, q.graph_eq.2] at hends
    have hlabels : p.node.nodes.map Node.label = q.node.nodes.map Node.label := by
      rw [← Node.map_label_vertices 0, hvertices, Node.map_label_vertices]
    have helement : p.node.element = q.node.element :=
      p.node.element_eq_of_alike ⟨.root, .program p, rfl⟩ hp ⟨.root, .program q, rfl⟩ hq
        ⟨hlabels, hends⟩
    exact Element.program.inj helement
  · rintro rfl
    rfl

/-- Two blocks with the same labels in order: a statement behind an inner block, or
inside of it. -/
theorem Program.dot_ne_of_nesting :
    (Program.mk [⟨"main", [], [], [.block [.skip], .skip]⟩]).graph.dot ⟨"AST", false⟩ ≠
      (Program.mk [⟨"main", [], [], [.block [.skip, .skip]]⟩]).graph.dot ⟨"AST", false⟩ :=
  fun h => nomatch (dot_eq_iff (by decide) (by decide) _).mp h

end SyntaxGraph
