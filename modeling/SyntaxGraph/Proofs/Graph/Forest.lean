/-
# A graph of several trees

Trees are given to a builder one after the other, each in a call of its own. The graph is
then a forest with the roots of the trees as its roots: the vertices are numbered in order,
an edge leads to every vertex but the roots, and only one, from an earlier vertex, and source
and role tell the edges apart. One more tree keeps this, and no call fails.

Key definitions: `GraphBuilder.calls`, `GraphBuilder.Draws`, `Graph.IsForest`.
Key theorems: `GraphBuilder.exec_calls`, `Graph.Invariant.add`, `GraphBuilder.draws_forest`.
-/
import SyntaxGraph.Graph.Dot
import SyntaxGraph.Proofs.Graph.Builder
import SyntaxGraph.Proofs.Graph.Links

namespace SyntaxGraph

/-! ### Calls -/

namespace GraphBuilder

/-- Trees are given to the builder one after the other, and the vertices of their roots are
returned. -/
def calls (ns : List Node) : Visit GraphBuilder (List Nat) :=
  ns.mapM handlers.accept

/-- The call that gives the tree `n` to the builder `b` returns `id` and leaves the builder
`b'`. -/
structure Draws (b : GraphBuilder) (n : Node) (id : Nat) (b' : GraphBuilder) : Prop where
  called : (handlers.accept n).exec b = (.ok id, b')
  returned : id = b.graph.vertices.size
  /-- One more vertex for each node, in order. -/
  vertices : b'.graph.vertices.toList =
    b.graph.vertices.toList ++ n.nodes.mapIdx fun i m => ⟨b.graph.vertices.size + i, m.label⟩
  /-- The edges come in the order of `Node.links`. -/
  edges : b'.graph.edges.toList = b.graph.edges.toList ++ n.links b.graph.vertices.size
  /-- The node that a path leads to has the vertex at its place. -/
  places : ∀ path m, n.follow path = some m → n.nodes[n.place path]? = some m
  /-- The edges are one for each node and a child of it, between their vertices. -/
  pairs : ∀ e, e ∈ n.links b.graph.vertices.size ↔ ∃ path i c, n.follow (path ++ [i]) = some c ∧
    e = ⟨b.graph.vertices.size + n.place path, b.graph.vertices.size + n.place (path ++ [i]),
      c.role.text⟩

theorem draws_ofGraph (g : Graph) (n : Node) : (ofGraph g).Draws n g.nextId (ofGraph (g.add n)) :=
  have hadd := Graph.extends_add n g
  ⟨adds n g, rfl, hadd.vertices, hadd.edges, fun _ _ => Node.getElem?_place,
    fun _ => n.mem_links⟩

/-- Calls in turn add the trees in turn. -/
theorem exec_calls : ∀ (ns : List Node) (g : Graph),
    (calls ns).exec (ofGraph g) = (.ok (g.addAll ns).1, ofGraph (g.addAll ns).2)
  | [], _ => rfl
  | n :: ns, g => by
    have hrest := exec_calls ns (g.add n)
    rw [calls] at hrest
    rw [calls, List.mapM_cons, Action.exec_bind, adds]
    dsimp only
    rw [Action.exec_bind, hrest]
    rfl

end GraphBuilder

namespace Graph

theorem length_addAll : ∀ (ns : List Node) (g : Graph), (g.addAll ns).1.length = ns.length
  | [], _ => rfl
  | n :: ns, g => congrArg (· + 1) (length_addAll ns (g.add n))

theorem addAll_append : ∀ (ms ns : List Node) (g : Graph), g.addAll (ms ++ ns) =
    ((g.addAll ms).1 ++ ((g.addAll ms).2.addAll ns).1, ((g.addAll ms).2.addAll ns).2)
  | [], _, _ => rfl
  | m :: ms, ns, g => by
    rw [List.cons_append, addAll, addAll_append ms ns (g.add m)]
    rfl

/-! ### What a call keeps -/

/-- Vertices are numbered in order, edges and roots together have each of them
once, edges lead to later vertices, and slots tell edges apart. -/
structure Invariant (g : Graph) (roots : List Nat) : Prop where
  ids : g.vertices.toList.map Vertex.id = List.range g.nextId
  targets : (g.edges.toList.map Edge.target ++ roots).Perm (List.range g.nextId)
  later : ∀ e ∈ g.edges.toList, e.source < e.target
  slots : (g.edges.toList.map Edge.slot).Nodup

theorem invariant_empty : empty.Invariant [] :=
  ⟨rfl, List.Perm.nil, nofun, List.nodup_nil⟩

namespace Invariant

variable {g : Graph} {roots : List Nat}

theorem target_lt (h : g.Invariant roots) {e : Edge} (he : e ∈ g.edges.toList) :
    e.target < g.nextId := by
  have htarget : e.target ∈ g.edges.toList.map Edge.target ++ roots :=
    List.mem_append_left _ (List.mem_map_of_mem he)
  exact List.mem_range.mp (h.targets.mem_iff.mp htarget)

/-- One more tree keeps the invariant, with its root as one more root. -/
theorem add (h : g.Invariant roots) {n : Node} (hn : n.Proper) :
    (g.add n).Invariant (roots ++ [g.nextId]) := by
  have hadd := extends_add n g
  have hnext : List.range (g.add n).nextId =
      List.range g.nextId ++ List.range' g.nextId n.size := by
    rw [hadd.nextId, List.range_eq_range', List.range_eq_range', ← List.range'_append_1,
      Nat.zero_add]
    rfl
  refine ⟨?_, ?_, ?_, ?_⟩
  · rw [hadd.vertices, List.map_append, h.ids, Node.map_id_vertices, hnext]
    rfl
  · have hmove : ((g.add n).edges.toList.map Edge.target ++ (roots ++ [g.nextId])).Perm
        (g.edges.toList.map Edge.target ++ roots ++
          (g.nextId :: (n.links g.nextId).map Edge.target)) := by
      refine List.perm_iff_count.mpr fun v => ?_
      rw [hadd.edges, List.map_append]
      simp only [List.count_append, List.count_cons, List.count_nil]
      omega
    rw [hnext]
    exact hmove.trans (h.targets.append (n.targets_links g.nextId))
  · intro e he
    rw [hadd.edges] at he
    rcases List.mem_append.mp he with he | he
    · exact h.later e he
    · exact (n.bounds_of_mem_links he).2.1
  · rw [hadd.edges, List.map_append]
    refine List.nodup_append.mpr ⟨h.slots, Node.nodup_links hn g.nextId, ?_⟩
    -- the edges of the tree start at its own vertices
    rintro _ ha _ hb rfl
    obtain ⟨e, he, rfl⟩ := List.mem_map.mp ha
    obtain ⟨f, hf, hslot⟩ := List.mem_map.mp hb
    have hsource : f.source = e.source := congrArg Prod.fst hslot
    have hlater := h.later e he
    have htarget := h.target_lt he
    have hinside := n.bounds_of_mem_links hf
    omega

theorem addAll {ns : List Node} (hns : ∀ n ∈ ns, n.Proper) : ∀ {g : Graph} {roots : List Nat},
    g.Invariant roots → (g.addAll ns).2.Invariant (roots ++ (g.addAll ns).1) := by
  induction ns with
  | nil =>
    intro g roots h
    rw [Graph.addAll, List.append_nil]
    exact h
  | cons n ns ih =>
    intro g roots h
    obtain ⟨hn, hns⟩ := List.forall_mem_cons.mp hns
    have hrest := ih hns (h.add hn)
    rw [List.append_assoc, List.singleton_append] at hrest
    exact hrest

end Invariant

/-! ### Forests -/

/-- What a graph of trees with these roots is like. -/
structure IsForest (g : Graph) (roots : List Nat) : Prop where
  names : g.vertices.toList.map (fun v => vertexName v.id) =
    (List.range g.vertices.size).map fun i => "n" ++ i.repr
  distinct : (g.vertices.toList.map fun v => vertexName v.id).Nodup
  count : g.edges.size + roots.length = g.vertices.size
  root : ∀ r ∈ roots, r < g.vertices.size ∧ ∀ e ∈ g.edges.toList, e.target ≠ r
  other : ∀ v < g.vertices.size, v ∉ roots →
    ∃ e, g.edges.toList.filter (fun e => e.target = v) = [e] ∧ e.source < v
  slots : (g.edges.toList.map fun e => (e.source, e.label)).Nodup

theorem filter_eq_singleton {α : Type} {f : α → Nat} {as : List α} (h : (as.map f).Nodup) {a : α}
    (ha : a ∈ as) : as.filter (fun b => f b = f a) = [a] := by
  obtain ⟨before, after, rfl⟩ := List.append_of_mem ha
  rw [List.map_append, List.map_cons, List.perm_middle.nodup_iff, List.nodup_cons,
    List.mem_append, not_or] at h
  have hnone : ∀ bs : List α, f a ∉ bs.map f → bs.filter (fun b => f b = f a) = [] := by
    intro bs hbs
    refine List.filter_eq_nil_iff.mpr fun b hb heq => hbs ?_
    exact List.mem_map.mpr ⟨b, hb, of_decide_eq_true heq⟩
  have hself : decide (f a = f a) = true := decide_eq_true rfl
  rw [List.filter_append, List.filter_cons, if_pos hself, hnone before h.1.1, hnone after h.1.2,
    List.nil_append]

theorem Invariant.isForest {g : Graph} {roots : List Nat} (h : g.Invariant roots) :
    g.IsForest roots := by
  have hnames : g.vertices.toList.map (fun v => vertexName v.id) =
      (List.range g.nextId).map vertexName := by
    rw [← h.ids, List.map_map]
    rfl
  obtain ⟨htargets, -, hdisjoint⟩ :=
    List.nodup_append.mp (h.targets.nodup_iff.mpr List.nodup_range)
  refine ⟨hnames, ?_, ?_, ?_, ?_, h.slots⟩
  · rw [hnames]
    exact List.Pairwise.map vertexName (fun _ _ hne heq => hne (vertexName_injective heq))
      List.nodup_range
  · have hlength := h.targets.length_eq
    rwa [List.length_append, List.length_map, List.length_range, Array.length_toList] at hlength
  · intro r hr
    refine ⟨List.mem_range.mp (h.targets.mem_iff.mp (List.mem_append_right _ hr)), ?_⟩
    exact fun e he => hdisjoint _ (List.mem_map_of_mem he) r hr
  · intro v hv hroot
    have hmem := h.targets.mem_iff.mpr (List.mem_range.mpr hv)
    obtain ⟨e, he, rfl⟩ := List.mem_map.mp ((List.mem_append.mp hmem).resolve_right hroot)
    exact ⟨e, filter_eq_singleton htargets he, h.later e he⟩

end Graph

namespace GraphBuilder

/-- **The graph is the trees.** However many trees are given to a builder, no call fails. Each
of them draws the nodes and links of its tree behind what is there and returns the vertex of
the root, and all trees together make a forest. The trees are those of elements; all nodes
below one are such trees again (`Node.Proper.of_mem_nodes`). -/
theorem draws_forest {ns : List Node} (hns : ∀ n ∈ ns, n.Proper) :
    ∃ ids b, (calls ns).exec new = (.ok ids, b) ∧ ids.length = ns.length ∧
      b.graph.IsForest ids ∧
      ∀ before n after, ns = before ++ n :: after → ∃ ids' b' id b'',
        (calls before).exec new = (.ok ids', b') ∧ b'.Draws n id b'' ∧
        (calls (before ++ [n])).exec new = (.ok (ids' ++ [id]), b'') ∧
        ids[before.length]? = some id := by
  have hcalls : ∀ ms, (calls ms).exec new =
      (.ok (Graph.empty.addAll ms).1, ofGraph (Graph.empty.addAll ms).2) :=
    fun ms => exec_calls ms .empty
  refine ⟨_, _, hcalls ns, Graph.length_addAll ns .empty,
    (Graph.invariant_empty.addAll hns).isForest, ?_⟩
  rintro before n after rfl
  refine ⟨_, _, _, _, hcalls before, draws_ofGraph _ n, ?_, ?_⟩
  · rw [hcalls, Graph.addAll_append]
    rfl
  · have hlength := Graph.length_addAll before .empty
    rw [Graph.addAll_append, List.getElem?_append_right (Nat.le_of_eq hlength), hlength,
      Nat.sub_self]
    rfl

/-- A sum and a statement become a forest of two trees. -/
theorem draws_sum_and_skip : ∃ b,
    (calls [(Expr.arith .add (.var "a") (.var "b")).node .root, Stmt.skip.node .root]).exec new =
      (.ok [0, 3], b) ∧
    b.graph.edges = #[⟨0, 1, "left"⟩, ⟨0, 2, "right"⟩] ∧ b.graph.IsForest [0, 3] := by
  have hproper : ∀ n ∈ [(Expr.arith .add (.var "a") (.var "b")).node .root, Stmt.skip.node .root],
      n.Proper :=
    List.forall_mem_cons.mpr ⟨Node.proper_expr .root _,
      List.forall_mem_cons.mpr ⟨Node.proper_stmt .root _, nofun⟩⟩
  obtain ⟨ids, b, hrun, -, hforest, -⟩ := draws_forest hproper
  obtain ⟨hids, rfl⟩ := Prod.mk.inj ((exec_calls _ .empty).symm.trans hrun)
  obtain rfl := Except.ok.inj hids
  exact ⟨_, hrun, rfl, hforest⟩

end GraphBuilder
end SyntaxGraph
