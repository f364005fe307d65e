/-
# The edges of a tree

The nodes of a tree become vertices in their order, numbered from where the
graph stands. Each pair of a node and a child of it becomes an edge, and the
edge to the child comes right after the edges of all that is below the child.

Key definitions: `Node.vertices`, `Node.links`, `Graph.Extends`.
Key theorems: `Graph.extends_add`, `Node.mem_links`, `Node.targets_links`, `Node.nodup_links`.
-/
import SyntaxGraph.Graph.Basic
import SyntaxGraph.Proofs.Tree.Siblings

namespace SyntaxGraph

/-- The vertex that an edge starts at, and what it says. -/
def Edge.slot (e : Edge) : Nat × String :=
  (e.source, e.label)

namespace Node

/-- The vertices of nodes, numbered in order from `first` on. -/
def vertices (first : Nat) (ms : List Node) : List Vertex :=
  ms.mapIdx fun i m => ⟨first + i, m.label⟩

mutual

/-- The edges of a tree whose root is the vertex `root`. -/
def links (root : Nat) : Node → List Edge
  | mk _ _ children => linksBelow root (root + 1) children

/-- The edges of the trees below the vertex `parent`, the first of which has the
root `next`. -/
def linksBelow (parent next : Nat) : List Node → List Edge
  | [] => []
  | n :: ns =>
    links next n ++ ⟨parent, next, n.role.text⟩ :: linksBelow parent (next + n.size) ns

end

theorem vertices_append (first : Nat) (ms ns : List Node) :
    vertices first (ms ++ ns) = vertices first ms ++ vertices (first + ms.length) ns := by
  unfold vertices
  rw [List.mapIdx_append]
  simp only [Nat.add_assoc, Nat.add_comm ms.length]

theorem length_vertices (first : Nat) (ms : List Node) : (vertices first ms).length = ms.length :=
  List.length_mapIdx

theorem map_id_vertices (first : Nat) (ms : List Node) :
    (vertices first ms).map Vertex.id = List.range' first ms.length := by
  refine List.ext_getElem (by simp [vertices]) fun i hi _ => ?_
  simp [vertices]

end Node

/-! ### What a tree adds to a graph -/

namespace Graph

/-- The graph `g'` has what `g` has, and then vertices for the nodes `ms` and the
edges `es`. -/
structure Extends (g g' : Graph) (ms : List Node) (es : List Edge) : Prop where
  vertices : g'.vertices.toList = g.vertices.toList ++ Node.vertices g.nextId ms
  edges : g'.edges.toList = g.edges.toList ++ es

theorem Extends.refl (g : Graph) : g.Extends g [] [] :=
  ⟨(List.append_nil _).symm, (List.append_nil _).symm⟩

theorem Extends.nextId {g g' : Graph} {ms : List Node} {es : List Edge} (h : g.Extends g' ms es) :
    g'.nextId = g.nextId + ms.length := by
  have hlength := congrArg List.length h.vertices
  rwa [List.length_append, Node.length_vertices, Array.length_toList, Array.length_toList] at hlength

theorem Extends.trans {g g' g'' : Graph} {ms ns : List Node} {es fs : List Edge}
    (h : g.Extends g' ms es) (h' : g'.Extends g'' ns fs) :
    g.Extends g'' (ms ++ ns) (es ++ fs) := by
  refine ⟨?_, ?_⟩
  · rw [h'.vertices, h.vertices, h.nextId, List.append_assoc, ← Node.vertices_append]
  · rw [h'.edges, h.edges, List.append_assoc]

theorem extends_addVertex (g : Graph) (m : Node) : g.Extends (g.addVertex m.label) [m] [] :=
  ⟨Array.toList_push, (List.append_nil _).symm⟩

theorem extends_addEdge (g : Graph) (e : Edge) : g.Extends (g.addEdge e) [] [e] :=
  ⟨(List.append_nil _).symm, Array.toList_push⟩

/-- Trees extend a graph in turn if each of them extends any. -/
theorem extends_addBelow {ns : List Node}
    (h : ∀ n ∈ ns, ∀ g, Extends g (g.add n) n.nodes (n.links g.nextId)) (parent : Nat) :
    ∀ g, Extends g (g.addBelow parent ns) (ns.flatMap Node.nodes)
      (Node.linksBelow parent g.nextId ns) := by
  induction ns with
  | nil => exact Extends.refl
  | cons n ns ih =>
    intro g
    obtain ⟨hn, hns⟩ := List.forall_mem_cons.mp h
    have htree := (hn g).trans (extends_addEdge (g.add n) ⟨parent, g.nextId, n.role.text⟩)
    have hrest := ih hns ((g.add n).addEdge ⟨parent, g.nextId, n.role.text⟩)
    have hnext := htree.nextId
    rw [List.append_nil] at hnext
    rw [hnext] at hrest
    have hall := htree.trans hrest
    rw [List.append_nil, List.append_assoc] at hall
    rw [addBelow, List.flatMap_cons, Node.linksBelow]
    exact hall

/-- **A tree adds its nodes in order, and its edges.** -/
theorem extends_add (n : Node) : ∀ g, Extends g (g.add n) n.nodes (n.links g.nextId) := by
  induction n using Node.induction with
  | mk role element children ih =>
    intro g
    have hroot := extends_addVertex g (.mk role element children)
    have hbelow := extends_addBelow ih g.nextId (g.addVertex element.label)
    have hnext : (g.addVertex element.label).nextId = g.nextId + 1 := hroot.nextId
    rw [hnext] at hbelow
    rw [add, Node.nodes_mk, Node.links]
    exact hroot.trans hbelow

end Graph

namespace Node

/-! ### One edge for each child -/

/-- An edge leads to one of the trees, or it is an edge of one. -/
theorem mem_linksBelow {parent : Nat} {e : Edge} {ns : List Node} : ∀ {next : Nat},
    e ∈ linksBelow parent next ns ↔ ∃ i c, ns[i]? = some c ∧
      (e = ⟨parent, next + sizes (ns.take i), c.role.text⟩ ∨
        e ∈ c.links (next + sizes (ns.take i))) := by
  induction ns with
  | nil =>
    intro next
    simp [linksBelow]
  | cons n ns ih =>
    intro next
    rw [linksBelow, List.mem_append, List.mem_cons, ih]
    constructor
    · rintro (h | h | ⟨i, c, hc, h⟩)
      · exact ⟨0, n, rfl, .inr h⟩
      · exact ⟨0, n, rfl, .inl h⟩
      · refine ⟨i + 1, c, hc, ?_⟩
        rw [List.take_succ_cons, sizes_cons, ← Nat.add_assoc]
        exact h
    · rintro ⟨i, c, hc, h⟩
      cases i with
      | zero =>
        obtain rfl : n = c := Option.some.inj hc
        exact h.elim (fun h => .inr (.inl h)) .inl
      | succ i =>
        rw [List.take_succ_cons, sizes_cons, ← Nat.add_assoc] at h
        exact .inr (.inr ⟨i, c, hc, h⟩)

/-- An edge leads from the place of a node to that of a child, and says the
child's role. -/
theorem mem_links {e : Edge} (n : Node) : ∀ {root : Nat},
    e ∈ n.links root ↔ ∃ path i c, n.follow (path ++ [i]) = some c ∧
      e = ⟨root + n.place path, root + n.place (path ++ [i]), c.role.text⟩ := by
  induction n using Node.induction with
  | mk role element children ih =>
    intro root
    rw [links, mem_linksBelow]
    constructor
    · rintro ⟨i, c, hc, h⟩
      have hchild : (mk role element children).children[i]? = some c := hc
      rcases h with rfl | h
      · refine ⟨[], i, c, follow_cons.mpr ⟨c, hc, rfl⟩, ?_⟩
        rw [List.nil_append, place_cons hchild]
        simp only [place, Node.children, Nat.add_assoc, Nat.add_zero]
      · obtain ⟨path, j, d, hd, rfl⟩ := (ih c (List.mem_of_getElem? hc)).mp h
        refine ⟨i :: path, j, d, follow_cons.mpr ⟨c, hc, hd⟩, ?_⟩
        rw [List.cons_append, place_cons hchild, place_cons hchild]
        simp only [Node.children, Nat.add_assoc]
    · rintro ⟨path, j, d, hd, rfl⟩
      cases path with
      | nil =>
        obtain ⟨c, hc, hd⟩ := follow_cons.mp hd
        obtain rfl : c = d := Option.some.inj hd
        refine ⟨j, c, hc, .inl ?_⟩
        rw [List.nil_append, place_cons hc]
        simp only [place, Node.children, Nat.add_assoc, Nat.add_zero]
      | cons i path =>
        obtain ⟨c, hc, hd⟩ := follow_cons.mp hd
        refine ⟨i, c, hc, .inr ((ih c (List.mem_of_getElem? hc)).mpr ⟨path, j, d, hd, ?_⟩)⟩
        rw [List.cons_append, place_cons hc, place_cons hc]
        simp only [Node.children, Nat.add_assoc]

/-! ### Sources and targets -/

/-- The edges to the trees lead to all their nodes if those of each tree lead to
all but its root. -/
theorem targets_linksBelow {ns : List Node}
    (h : ∀ n ∈ ns, ∀ root,
      (root :: (n.links root).map Edge.target).Perm (List.range' root n.size))
    (parent : Nat) : ∀ next, ((linksBelow parent next ns).map Edge.target).Perm
      (List.range' next (sizes ns)) := by
  induction ns with
  | nil => exact fun _ => List.Perm.nil
  | cons n ns ih =>
    intro next
    obtain ⟨hn, hns⟩ := List.forall_mem_cons.mp h
    have hmove : ((linksBelow parent next (n :: ns)).map Edge.target).Perm
        (next :: (n.links next).map Edge.target ++
          (linksBelow parent (next + n.size) ns).map Edge.target) := by
      rw [linksBelow, List.map_append, List.map_cons]
      exact List.perm_middle
    rw [sizes_cons, ← List.range'_append_1]
    exact hmove.trans ((hn next).append (ih hns (next + n.size)))

/-- **Each vertex but the root is the target of one edge.** -/
theorem targets_links (n : Node) : ∀ root,
    (root :: (n.links root).map Edge.target).Perm (List.range' root n.size) := by
  induction n using Node.induction with
  | mk role element children ih =>
    intro root
    rw [links, size_mk, Nat.add_comm 1, List.range'_succ]
    exact (targets_linksBelow ih root (root + 1)).cons root

/-- There is an edge for every vertex but the root. -/
theorem length_links (n : Node) (root : Nat) : (n.links root).length + 1 = n.size := by
  have hlength := (n.targets_links root).length_eq
  rwa [List.length_cons, List.length_map, List.length_range'] at hlength

/-- A tree of a list ends where the next one begins. -/
theorem sizes_take_le {i : Nat} {c : Node} {ns : List Node} (h : ns[i]? = some c) :
    sizes (ns.take i) + c.size ≤ sizes ns := by
  have hsplit : sizes ns = sizes (ns.take i ++ c :: ns.drop (i + 1)) := by
    rw [← eq_take_append h]
  rw [sizes_append, sizes_cons] at hsplit
  omega

/-- An edge leads to a later vertex of the tree. -/
theorem bounds_of_mem_links {e : Edge} (n : Node) : ∀ {root : Nat}, e ∈ n.links root →
    root ≤ e.source ∧ e.source < e.target ∧ e.target < root + n.size := by
  induction n using Node.induction with
  | mk role element children ih =>
    intro root he
    rw [links, mem_linksBelow] at he
    obtain ⟨i, c, hc, h⟩ := he
    have hend := sizes_take_le hc
    have hpos := c.size_pos
    rw [size_mk]
    rcases h with rfl | h
    · simp only
      omega
    · have hbounds := ih c (List.mem_of_getElem? hc) h
      omega

/-- An edge below a vertex starts at it, with the role of a child, or further on. -/
theorem source_of_mem_linksBelow {e : Edge} {parent next : Nat} {ns : List Node}
    (he : e ∈ linksBelow parent next ns) :
    e.source = parent ∧ e.label ∈ ns.map (·.role.text) ∨ next ≤ e.source := by
  obtain ⟨i, c, hc, h⟩ := mem_linksBelow.mp he
  rcases h with rfl | h
  · exact .inl ⟨rfl, List.mem_map.mpr ⟨c, List.mem_of_getElem? hc, rfl⟩⟩
  · have hbounds := c.bounds_of_mem_links h
    exact .inr (by omega)

/-! ### Sources and roles -/

/-- The edges of trees in different roles have slots of their own if those of each
tree do. -/
theorem nodup_linksBelow {ns : List Node}
    (h : ∀ n ∈ ns, ∀ root, ((n.links root).map Edge.slot).Nodup) (hroles : (ns.map role).Nodup)
    {parent : Nat} :
    ∀ {next}, parent < next → ((linksBelow parent next ns).map Edge.slot).Nodup := by
  induction ns with
  | nil => exact fun _ => List.nodup_nil
  | cons n ns ih =>
    intro next hnext
    obtain ⟨hn, hns⟩ := List.forall_mem_cons.mp h
    obtain ⟨hrole, hroles⟩ := List.nodup_cons.mp hroles
    have hpos := n.size_pos
    have hfirst : Edge.slot ⟨parent, next, n.role.text⟩ ∉
        (linksBelow parent (next + n.size) ns).map Edge.slot := by
      intro hmem
      obtain ⟨e, he, hslot⟩ := List.mem_map.mp hmem
      obtain ⟨hsource, hlabel⟩ := Prod.mk.inj hslot
      rcases source_of_mem_linksBelow he with ⟨-, htext⟩ | hlater
      · obtain ⟨c, hc, hrolec⟩ := List.mem_map.mp htext
        exact hrole (List.mem_map.mpr ⟨c, hc, Role.text_injective (hrolec.trans hlabel)⟩)
      · simp only at hsource
        omega
    have hbehind : parent < next + n.size := by omega
    have hrest := ih hns hroles hbehind
    rw [linksBelow, List.map_append, List.map_cons]
    refine List.nodup_append.mpr ⟨hn next, List.nodup_cons.mpr ⟨hfirst, hrest⟩, ?_⟩
    -- the edges of the first tree start inside of it, the others before or behind
    rintro _ ha b hb rfl
    obtain ⟨e, he, rfl⟩ := List.mem_map.mp ha
    have hinside := n.bounds_of_mem_links he
    rcases List.mem_cons.mp hb with hb | hb
    · have hsource : e.source = parent := congrArg Prod.fst hb
      omega
    · obtain ⟨f, hf, hslot⟩ := List.mem_map.mp hb
      have hsource : f.source = e.source := congrArg Prod.fst hslot
      rcases source_of_mem_linksBelow hf with ⟨hparent, -⟩ | hlater
      · omega
      · omega

/-- No two edges of a proper tree have the same source and role. -/
theorem nodup_links {n : Node} (hn : n.Proper) : ∀ root, ((n.links root).map Edge.slot).Nodup := by
  induction n using Node.induction with
  | mk role element children ih =>
    intro root
    have hbelow : ∀ c ∈ children, ∀ root, ((c.links root).map Edge.slot).Nodup :=
      fun c hc => ih c hc (hn.of_mem_children hc)
    rw [links]
    exact nodup_linksBelow hbelow hn.nodup_roles (Nat.lt_succ_self root)

end Node
end SyntaxGraph
