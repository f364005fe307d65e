/-
# The nodes of a tree in order

The nodes of a tree are listed with each node before those below it. A path
leads to a node, and says at which place of the list it stands.

Every element of a program has a tree. Its children are trees of elements
again, so all that a tree holds is of that kind.

Key definitions: `Node.nodes`, `Node.size`, `Node.place`, `Element.node`, `Node.Proper`.
Key theorems: `Node.nodes_mk`, `Node.getElem?_place`, `Node.Proper.of_mem_nodes`.
-/
import SyntaxGraph.Tree.Node

namespace SyntaxGraph
namespace Node

/-- What holds of a node if it holds of its children holds of every node. -/
@[elab_as_elim]
theorem induction {P : Node → Prop}
    (mk : ∀ role element children, (∀ c ∈ children, P c) → P (mk role element children)) (n : Node) :
    P n := by
  refine Node.rec (motive_1 := P) (motive_2 := fun ns => ∀ c ∈ ns, P c) ?_ ?_ ?_ n
  · exact mk
  · exact nofun
  · exact fun n ns hn hns => List.forall_mem_cons.mpr ⟨hn, hns⟩

/-! ### The nodes in order -/

/-- The nodes of a tree, each before those below it, and these in order. -/
def nodes (n : Node) : List Node :=
  (n.preorder 0).map Prod.snd

theorem preorderAll_eq (depth : Nat) : ∀ ns : List Node,
    preorderAll depth ns = ns.flatMap (preorder depth)
  | [] => rfl
  | n :: ns => by rw [preorderAll, List.flatMap_cons, preorderAll_eq depth ns]

theorem map_snd_preorder (n : Node) : ∀ depth, (n.preorder depth).map Prod.snd = n.nodes := by
  induction n using Node.induction with
  | mk role element children ih =>
    have hbelow : ∀ depth, ((mk role element children).preorder depth).map Prod.snd =
        mk role element children :: children.flatMap nodes := by
      intro depth
      rw [preorder, List.map_cons, preorderAll_eq, List.map_flatMap]
      congr 1
      exact congrArg List.flatten (List.map_congr_left fun c hc => ih c hc (depth + 1))
    intro depth
    rw [hbelow depth, nodes, hbelow 0]

/-- The nodes are the root and those of its children in turn. -/
theorem nodes_mk (role : Role) (element : Element) (children : List Node) :
    (mk role element children).nodes =
      mk role element children :: children.flatMap nodes := by
  rw [nodes, preorder, List.map_cons, preorderAll_eq, List.map_flatMap]
  congr 1
  exact congrArg List.flatten (List.map_congr_left fun c _ => map_snd_preorder c 1)

/-- How many nodes there are. -/
def size (n : Node) : Nat :=
  n.nodes.length

/-- How many nodes there are in trees. -/
def sizes (ns : List Node) : Nat :=
  (ns.flatMap nodes).length

theorem sizes_append (ms ns : List Node) : sizes (ms ++ ns) = sizes ms + sizes ns := by
  rw [sizes, List.flatMap_append, List.length_append]
  rfl

theorem sizes_cons (n : Node) (ns : List Node) : sizes (n :: ns) = n.size + sizes ns := by
  rw [sizes, List.flatMap_cons, List.length_append]
  rfl

theorem size_mk (role : Role) (element : Element) (children : List Node) :
    (mk role element children).size = 1 + sizes children := by
  rw [size, nodes_mk, List.length_cons, Nat.add_comm]
  rfl

theorem size_pos (n : Node) : 0 < n.size := by
  cases n
  rw [size_mk]
  omega

/-! ### Paths -/

/-- The place of the node that a path leads to: behind the root and the nodes of
the children before the one that the path goes through. -/
def place : List Nat → Node → Nat
  | [], _ => 0
  | i :: path, n => 1 + sizes (n.children.take i) + n.children[i]?.elim 0 (place path)

theorem follow_cons {i : Nat} {path : List Nat} {n m : Node} :
    n.follow (i :: path) = some m ↔ ∃ c, n.children[i]? = some c ∧ c.follow path = some m :=
  Option.bind_eq_some_iff

theorem place_cons {i : Nat} {n c : Node} (h : n.children[i]? = some c) (path : List Nat) :
    n.place (i :: path) = 1 + sizes (n.children.take i) + c.place path := by
  rw [place, h, Option.elim_some]

/-- The trees before one of a list, and that tree. -/
theorem eq_take_append {ns : List Node} {i : Nat} {n : Node} (h : ns[i]? = some n) :
    ns = ns.take i ++ n :: ns.drop (i + 1) := by
  obtain ⟨hi, rfl⟩ := List.getElem?_eq_some_iff.mp h
  rw [← List.drop_eq_getElem_cons hi, List.take_append_drop]

/-- **The node that a path leads to stands at its place.** -/
theorem getElem?_place {path : List Nat} {n m : Node} (h : n.follow path = some m) :
    n.nodes[n.place path]? = some m := by
  induction path generalizing n with
  | nil =>
    obtain rfl : n = m := by simpa [follow] using h
    cases n
    rw [nodes_mk]
    rfl
  | cons i path ih =>
    obtain ⟨c, hc, hm⟩ := follow_cons.mp h
    have hplace : c.nodes[c.place path]? = some m := ih hm
    have hlt : c.place path < c.nodes.length := (List.getElem?_eq_some_iff.mp hplace).1
    cases n with
    | mk role element below =>
      have hc : below[i]? = some c := hc
      have hsplit : below.flatMap nodes =
          (below.take i).flatMap nodes ++ (c.nodes ++ (below.drop (i + 1)).flatMap nodes) := by
        rw [← List.flatMap_cons, ← List.flatMap_append, ← eq_take_append hc]
      have hindex : (mk role element below).place (i :: path) =
          ((below.take i).flatMap nodes).length + c.place path + 1 := by
        rw [place_cons hc, sizes, children]
        omega
      rw [hindex, nodes_mk, List.getElem?_cons_succ, hsplit, List.getElem?_append_right (by omega),
        Nat.add_sub_cancel_left, List.getElem?_append_left hlt, hplace]

end Node

/-! ### The trees of lists -/

/-- A function that counts on from a number makes of each member what its index and that
number ask for. -/
theorem eq_mapIdx_of_counting {α β : Type} {f : Nat → List α → List β} {g : Nat → α → β}
    (hnil : ∀ i, f i [] = []) (hcons : ∀ i a as, f i (a :: as) = g i a :: f (i + 1) as)
    (as : List α) : f 0 as = as.mapIdx g := by
  have hfrom : ∀ (as : List α) (i : Nat), f i as = as.mapIdx fun k a => g (i + k) a := by
    intro as
    induction as with
    | nil => exact hnil
    | cons a as ih =>
      intro i
      rw [hcons, ih (i + 1), List.mapIdx_cons]
      simp only [Nat.add_zero, Nat.add_assoc, Nat.add_comm 1]
  rw [hfrom]
  simp only [Nat.zero_add]

theorem Expr.argumentNodes_eq (es : List Expr) :
    argumentNodes 0 es = es.mapIdx fun k e => e.node (.argument k) :=
  eq_mapIdx_of_counting (fun _ => rfl) (fun _ _ _ => rfl) es

theorem Stmt.memberNodes_eq (role : Nat → Role) (ss : List Stmt) :
    memberNodes role 0 ss = ss.mapIdx fun k s => s.node (role k) :=
  eq_mapIdx_of_counting (fun _ => rfl) (fun _ _ _ => rfl) ss

/-! ### The trees of elements -/

/-- The tree of an element, in a role unless it is a program. -/
def Element.node (role : Role) : Element → Node
  | program p => p.node
  | function f => f.node role
  | parameter d => d.parameterNode role
  | declaration d => d.localNode role
  | typeName t => t.node role
  | statement s => s.node role
  | expression e => e.node role

namespace Node

/-- The node has below it what its element has. -/
def Proper (n : Node) : Prop :=
  ∃ role x, n = Element.node role x

theorem proper_node (role : Role) (x : Element) : (x.node role).Proper :=
  ⟨role, x, rfl⟩

theorem proper_expr (role : Role) (e : Expr) : (e.node role).Proper :=
  proper_node role (.expression e)

theorem proper_stmt (role : Role) (s : Stmt) : (s.node role).Proper :=
  proper_node role (.statement s)

theorem proper_pair {c d : Node} (hc : c.Proper) (hd : d.Proper) : ∀ m ∈ [c, d], m.Proper :=
  List.forall_mem_cons.mpr ⟨hc, List.forall_mem_cons.mpr ⟨hd, nofun⟩⟩

theorem proper_mapIdx {α : Type} {tree : Nat → α → Node} (h : ∀ i a, (tree i a).Proper)
    (as : List α) : ∀ c ∈ as.mapIdx tree, c.Proper := by
  intro c hc
  obtain ⟨i, hi, rfl⟩ := List.mem_mapIdx.mp hc
  exact h i as[i]

theorem Proper.of_mem_children {n c : Node} (h : n.Proper) (hc : c ∈ n.children) : c.Proper := by
  obtain ⟨role, x, rfl⟩ := h
  cases x with
  | program p =>
    exact proper_mapIdx (fun i f => proper_node _ (.function f)) p.functions c hc
  | function f =>
    rcases List.mem_append.mp hc with hc | hc
    · rcases List.mem_append.mp hc with hc | hc
      · exact proper_mapIdx (fun i d => proper_node _ (.parameter d)) f.parameters c hc
      · exact proper_mapIdx (fun i d => proper_node _ (.declaration d)) f.declarations c hc
    · rw [Stmt.memberNodes_eq] at hc
      exact proper_mapIdx (fun i s => proper_stmt _ s) f.body c hc
  | parameter d =>
    obtain rfl : c = d.type.node .type := List.mem_singleton.mp hc
    exact proper_node _ (.typeName d.type)
  | declaration d =>
    obtain rfl : c = d.type.node .type := List.mem_singleton.mp hc
    exact proper_node _ (.typeName d.type)
  | typeName t =>
    obtain ⟨base, size⟩ := t
    cases size with
    | none => cases hc
    | some e =>
      obtain rfl : c = e.node .size := List.mem_singleton.mp hc
      exact proper_expr _ e
  | statement s =>
    cases s with
    | print | leave | skip => cases hc
    | assign l e | update _ l e => exact proper_pair (proper_expr _ l) (proper_expr _ e) c hc
    | ifThen e s | whileDo e s => exact proper_pair (proper_expr _ e) (proper_stmt _ s) c hc
    | ifThenElse e s t =>
      rcases List.mem_cons.mp hc with rfl | hc
      · exact proper_expr _ e
      · exact proper_pair (proper_stmt _ s) (proper_stmt _ t) c hc
    | read e | write e | ret e =>
      obtain rfl := List.mem_singleton.mp hc
      exact proper_expr _ e
    | block ss =>
      have hc : c ∈ Stmt.memberNodes .statement 0 ss := hc
      rw [Stmt.memberNodes_eq] at hc
      exact proper_mapIdx (fun i s => proper_stmt _ s) ss c hc
  | expression e =>
    cases e with
    | number | var => cases hc
    | arith _ l r | compare _ l r | logical _ l r =>
      exact proper_pair (proper_expr _ l) (proper_expr _ r) c hc
    | signed _ e | not e | entry _ e =>
      obtain rfl := List.mem_singleton.mp hc
      exact proper_expr _ e
    | call _ es =>
      have hc : c ∈ Expr.argumentNodes 0 es := hc
      rw [Expr.argumentNodes_eq] at hc
      exact proper_mapIdx (fun i e => proper_expr _ e) es c hc

/-- All that a proper node holds is proper. -/
theorem Proper.of_mem_nodes {n : Node} (hn : n.Proper) {m : Node} (hm : m ∈ n.nodes) : m.Proper := by
  induction n using Node.induction with
  | mk role element children ih =>
    rw [nodes_mk] at hm
    rcases List.mem_cons.mp hm with rfl | hm
    · exact hn
    · obtain ⟨c, hc, hm⟩ := List.mem_flatMap.mp hm
      exact ih c hc (hn.of_mem_children hc) hm

end Node
end SyntaxGraph
