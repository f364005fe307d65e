/-
# What holds throughout an element

A property holds throughout an element if all elements that its tree shows have
it: the element itself, and those that are below it, piece by piece. The role of
an element makes no difference to them.

Key definitions: `Node.Shows`, `Element.Throughout`.
Key theorems: `Element.induction`, `Element.throughout_iff`.
-/
import SyntaxGraph.Proofs.Tree.Pieces

namespace SyntaxGraph

theorem Node.element_node (role : Role) (x : Element) : (x.node role).element = x := by
  cases x with
  | statement s => exact element_stmt role s
  | expression e => exact element_expr role e
  | _ => rfl

/-- The children of an element show its pieces. -/
theorem Node.elements_children_node (role : Role) (x : Element) :
    (x.node role).children.map element = x.pieces := by
  rw [(proper_node role x).elements_children, element_node]

/-! ### Induction -/

/-- What holds of an element if it holds of its pieces holds of every element. -/
@[elab_as_elim]
theorem Element.induction {P : Element → Prop} (step : ∀ x, (∀ y ∈ x.pieces, P y) → P x)
    (x : Element) : P x := by
  have hnode : ∀ n : Node, n.Proper → P n.element := by
    intro n
    induction n using Node.induction with
    | mk role x children ih =>
      intro hn
      refine step x fun y hy => ?_
      rw [← show children.map Node.element = x.pieces from hn.elements_children] at hy
      obtain ⟨c, hc, rfl⟩ := List.mem_map.mp hy
      exact ih c hc (hn.of_mem_children hc)
  have hx := hnode _ (Node.proper_node .root x)
  rwa [Node.element_node] at hx

/-- What holds of an expression if it holds of those right below it holds of every
expression. -/
@[elab_as_elim]
theorem Expr.induction {P : Expr → Prop}
    (step : ∀ e, (∀ f, .expression f ∈ e.pieces → P f) → P e) (e : Expr) : P e := by
  suffices h : ∀ x : Element, ∀ e, x = .expression e → P e from h _ e rfl
  intro x
  induction x using Element.induction with
  | step x ih =>
    rintro e rfl
    exact step e fun f hf => ih _ hf f rfl

/-- What holds of a statement if it holds of those right below it holds of every
statement. -/
@[elab_as_elim]
theorem Stmt.induction {P : Stmt → Prop}
    (step : ∀ s, (∀ t, .statement t ∈ s.pieces → P t) → P s) (s : Stmt) : P s := by
  suffices h : ∀ x : Element, ∀ s, x = .statement s → P s from h _ s rfl
  intro x
  induction x using Element.induction with
  | step x ih =>
    rintro s rfl
    exact step s fun t ht => ih _ ht t rfl

/-! ### Properties of all elements -/

variable {P : Element → Prop}

/-- All elements that the tree shows have the property. -/
def Node.Shows (P : Element → Prop) (n : Node) : Prop :=
  ∀ m ∈ n.nodes, P m.element

/-- The element and all that is below it have the property. -/
def Element.Throughout (P : Element → Prop) (x : Element) : Prop :=
  (x.node .root).Shows P

theorem Node.shows_iff {n : Node} : n.Shows P ↔ P n.element ∧ ∀ c ∈ n.children, c.Shows P := by
  cases n with
  | mk role x children =>
    simp only [Shows, nodes_mk, List.forall_mem_cons, List.mem_flatMap]
    exact and_congr Iff.rfl
      ⟨fun h c hc m hm => h m ⟨c, hc, hm⟩, fun h m ⟨c, hc, hm⟩ => h c hc m hm⟩

/-- The children of an element are the same in every role. -/
theorem Node.children_node (role : Role) (x : Element) :
    (x.node role).children = (x.node .root).children := by
  cases x with
  | statement s => cases s <;> rfl
  | expression e => cases e <;> rfl
  | _ => rfl

/-- A proper tree shows what holds throughout its element. -/
theorem Node.Proper.shows_iff {n : Node} (hn : n.Proper) : n.Shows P ↔ n.element.Throughout P := by
  obtain ⟨role, x, rfl⟩ := hn
  rw [Element.Throughout, Node.shows_iff, Node.shows_iff, element_node, element_node,
    children_node role]

/-- **A property holds throughout an element** if the element has it and it holds
throughout the pieces. -/
theorem Element.throughout_iff {x : Element} :
    x.Throughout P ↔ P x ∧ ∀ y ∈ x.pieces, y.Throughout P := by
  have hn := Node.proper_node .root x
  rw [Throughout, Node.shows_iff, Node.element_node, ← Node.elements_children_node .root,
    List.forall_mem_map]
  exact and_congr Iff.rfl (forall₂_congr fun c hc => (hn.of_mem_children hc).shows_iff)

end SyntaxGraph
