/-
# Falling back never skips a node

A visitor that handles some operations, and does nothing for a node but note the
operation and visit what is below, goes through the nodes of a tree in order: for each
it does the first operation of the node's chain that it handles, and it stops at the
first node with none. Which category a node is of makes no difference to those below.

Key definitions: `Visitor.handlers`, `Visitor.through`, `Visitor.Handles`,
`Visitor.entry`.
Key theorems: `Visitor.exec_accept`, `Visitor.walk_eq_through`,
`Visitor.accept_falls_back`.
-/
import SyntaxGraph.Proofs.Tree.Preorder
import SyntaxGraph.Proofs.Visit.Dispatch

namespace SyntaxGraph
namespace Visitor

/-! ### Operations that note themselves -/

/-- The operations that were done, with the labels of their nodes. -/
abbrev Log :=
  List (Operation × String)

/-- Visits nodes in turn and adds up what comes out. -/
def visitInTurn {σ : Type} : Below σ Nat → Visit σ Nat
  | [] => pure 0
  | b :: bs => do
    let m ← b.2
    let n ← visitInTurn bs
    return m + n

/-- Notes an operation with a label, then visits the nodes below: one more than these
come to. -/
def logged (op : Operation) (label : String) (below : Below Log Nat) : Visit Log Nat := do
  modify (· ++ [(op, label)])
  let n ← visitInTurn below
  return 1 + n

variable (v : Visitor)

/-- The operation, if the visitor handles it. -/
def noting {τ : Type} (op : Operation) (view : τ → Element) :
    Option (τ → Below Log Nat → Visit Log Nat) :=
  if v.handles op then some fun a => logged op (view a).label else none

/-- The operations that the visitor handles, each of which notes itself. -/
def handlers : Handlers Log Nat where
  name := v.name
  program := v.noting (.kind .program) .program
  function := v.noting (.kind .function) .function
  parameter := v.noting (.kind .parameter) .parameter
  declaration := v.noting (.kind .declaration) .declaration
  typeName := v.noting (.kind .typeName) .typeName
  ofStatement k := v.noting (.kind k) .statement
  ofExpression k := v.noting (.kind k) .expression
  statement := v.noting .statement .statement
  expression := v.noting .expression .expression
  node := v.noting .node id

theorem map_noting {τ : Type} (op : Operation) (view : τ → Element) (a : τ) :
    (v.noting op view).map (· a) = if v.handles op then some (logged op (view a).label) else none := by
  unfold noting
  split <;> rfl

theorem own_handlers {x : Element} {op : Operation} (h : op ∈ x.chain) :
    v.handlers.own x op = if v.handles op then some (logged op x.label) else none := by
  cases x <;> simp only [Element.chain, List.mem_cons, List.not_mem_nil, or_false] at h <;>
    rcases h with rfl | rfl | rfl <;> exact v.map_noting ..

theorem findSome?_ite {α β : Type} {f : α → Option β} {g : α → β} {p : α → Bool} :
    ∀ {as : List α}, (∀ a ∈ as, f a = if p a then some (g a) else none) →
      as.findSome? f = (as.find? p).map g
  | [], _ => rfl
  | a :: as, h => by
    obtain ⟨ha, has⟩ := List.forall_mem_cons.mp h
    rw [List.findSome?_cons, List.find?_cons, ha]
    cases p a with
    | true => rfl
    | false => exact findSome?_ite has

/-- A node is noted with the first operation of its chain that is handled. -/
theorem accept_handlers (role : Role) (x : Element) (children : List Node) :
    v.handlers.accept (.mk role x children) = match v.operation x.kind with
      | some op => logged op x.label (v.handlers.acceptAll children)
      | none => throw ⟨v.name, x.kind⟩ := by
  have hown := findSome?_ite fun op (hop : op ∈ x.chain) => v.own_handlers hop
  rw [Handlers.accept, Handlers.visit_eq, hown, operation, Element.chain_eq]
  cases x.kind.chain.find? v.handles <;> rfl

/-! ### The walk of a visitor -/

theorem exec_logged (op : Operation) (label : String) (below : Below Log Nat) (log : Log) :
    (logged op label below).exec log =
      (((visitInTurn below).exec (log ++ [(op, label)])).1.map (1 + ·),
        ((visitInTurn below).exec (log ++ [(op, label)])).2) := by
  rw [logged, Action.exec_bind, Action.exec_modify]
  simp only [Action.exec_bind]
  rcases (visitInTurn below).exec (log ++ [(op, label)]) with ⟨_ | _, t⟩ <;> rfl

theorem exec_visitInTurn {ns : List Node}
    (h : ∀ n ∈ ns, ∀ log, (v.handlers.accept n).exec log =
      ((v.walk n).outcome, log ++ (v.walk n).log)) (log : Log) :
    (visitInTurn (v.handlers.acceptAll ns)).exec log =
      ((v.walkAll ns).outcome, log ++ (v.walkAll ns).log) := by
  induction ns generalizing log with
  | nil => simp [Handlers.acceptAll, visitInTurn, walkAll, Walk.nothing]
  | cons n ns ih =>
    obtain ⟨hn, hns⟩ := List.forall_mem_cons.mp h
    rw [Handlers.acceptAll, visitInTurn, walkAll, Action.exec_bind, hn]
    -- a failure ends the visits as it ends the walk
    rcases v.walk n with ⟨seen, e | m⟩
    · rfl
    · simp only [Action.exec_bind, ih hns]
      rcases v.walkAll ns with ⟨further, e | k⟩
      · simp [Walk.andThen, Except.map]
      · simp [Walk.andThen, Except.map]

/-- A visitor with its operations walks as it should. -/
theorem exec_accept (n : Node) : ∀ log,
    (v.handlers.accept n).exec log = ((v.walk n).outcome, log ++ (v.walk n).log) := by
  induction n using Node.induction with
  | mk role x children ih =>
    intro log
    rw [accept_handlers, walk]
    cases v.operation x.kind with
    | none => simp [Walk.failure]
    | some op =>
      simp only [exec_logged, v.exec_visitInTurn ih]
      simp [Walk.step]

/-! ### The nodes in order -/

/-- Goes through nodes one by one, none of which looks below itself. -/
def through : List Node → Walk
  | [] => .nothing
  | m :: ms =>
    match v.operation m.element.kind with
    | some op => .step op m.label (through ms)
    | none => .failure ⟨v.name, m.element.kind⟩

end Visitor

namespace Walk

theorem nothing_andThen (r : Walk) : nothing.andThen r = r := by
  rcases r with ⟨log, e | n⟩ <;> simp [nothing, andThen, Except.map]

theorem step_andThen (op : Operation) (label : String) (r s : Walk) :
    (step op label r).andThen s = step op label (r.andThen s) := by
  rcases r with ⟨log, e | m⟩
  · rfl
  · rcases s with ⟨log', e | n⟩ <;> simp [step, andThen, Except.map, Nat.add_assoc]

end Walk

namespace Visitor

variable (v : Visitor)

theorem through_append (ms ns : List Node) :
    v.through (ms ++ ns) = (v.through ms).andThen (v.through ns) := by
  induction ms with
  | nil => rw [List.nil_append, through, Walk.nothing_andThen]
  | cons m ms ih =>
    rw [List.cons_append, through, through, ih]
    cases v.operation m.element.kind with
    | some op => rw [Walk.step_andThen]
    | none => rfl

theorem walkAll_eq_through {ns : List Node} (h : ∀ n ∈ ns, v.walk n = v.through n.nodes) :
    v.walkAll ns = v.through (ns.flatMap Node.nodes) := by
  induction ns with
  | nil => rfl
  | cons n ns ih =>
    obtain ⟨hn, hns⟩ := List.forall_mem_cons.mp h
    rw [walkAll, hn, ih hns, List.flatMap_cons, through_append]

/-- Walking over a tree is going through its nodes in order. -/
theorem walk_eq_through (n : Node) : v.walk n = v.through n.nodes := by
  induction n using Node.induction with
  | mk role x children ih => rw [walk, v.walkAll_eq_through ih, Node.nodes_mk, through]; rfl

/-- An operation of the node's chain is handled. -/
def Handles (m : Node) : Prop :=
  ∃ op ∈ m.element.chain, v.handles op = true

instance (m : Node) : Decidable (v.Handles m) :=
  inferInstanceAs (Decidable (∃ op ∈ m.element.chain, v.handles op = true))

/-- The first operation of the node's chain that is handled, with the node's label. -/
def entry (m : Node) : Operation × String :=
  ((m.element.chain.find? v.handles).getD .node, m.label)

variable {v}

theorem Handles.operation_eq {m : Node} (h : v.Handles m) :
    v.operation m.element.kind = some (v.entry m).1 := by
  obtain ⟨op, hop, hhandles⟩ := h
  obtain ⟨first, hfirst⟩ := Option.isSome_iff_exists.mp
    (List.find?_isSome.mpr ⟨op, hop, hhandles⟩)
  rw [operation, entry, ← Element.chain_eq, hfirst, Option.getD_some]

theorem operation_eq_none {m : Node} (h : ¬ v.Handles m) : v.operation m.element.kind = none := by
  rw [operation, ← Element.chain_eq, List.find?_eq_none]
  exact fun op hop hhandles => h ⟨op, hop, hhandles⟩

theorem through_handled {ms : List Node} (h : ∀ m ∈ ms, v.Handles m) :
    v.through ms = ⟨ms.map v.entry, .ok ms.length⟩ := by
  induction ms with
  | nil => rfl
  | cons m ms ih =>
    obtain ⟨hm, hms⟩ := List.forall_mem_cons.mp h
    rw [through, hm.operation_eq, ih hms]
    simp [Walk.step, Except.map, entry, Nat.add_comm]

/-- Nodes are noted up to the first that is not handled. -/
theorem through_stop {before after : List Node} {m : Node} (h : ∀ b ∈ before, v.Handles b)
    (hm : ¬ v.Handles m) :
    v.through (before ++ m :: after) = ⟨before.map v.entry, .error ⟨v.name, m.element.kind⟩⟩ := by
  have hstop : v.through (m :: after) = .failure ⟨v.name, m.element.kind⟩ := by
    rw [through, operation_eq_none hm]
  rw [through_append, through_handled h, hstop]
  simp [Walk.andThen, Walk.failure, Except.map]

/-- **Falling back never skips a node, and fails at the first that is not handled.** If
all nodes of a tree are handled, a visitor comes to as many as there are and notes each
with the first operation of its chain that it handles, in order. Otherwise it notes those
before the first node that is not handled, and its failure names itself and the kind of
that node. So does the walk. -/
theorem accept_falls_back (v : Visitor) (n : Node) (log : Log) :
    ((∀ m ∈ n.nodes, v.Handles m) →
      (v.handlers.accept n).exec log = (.ok n.nodes.length, log ++ n.nodes.map v.entry)) ∧
    (∀ before m after, n.nodes = before ++ m :: after → (∀ b ∈ before, v.Handles b) →
      ¬ v.Handles m → (v.handlers.accept n).exec log =
        (.error ⟨v.name, m.element.kind⟩, log ++ before.map v.entry)) ∧
    (v.handlers.accept n).exec log = ((v.walk n).outcome, log ++ (v.walk n).log) := by
  refine ⟨fun hall => ?_, fun before m after hnodes hbefore hm => ?_, v.exec_accept n log⟩
  · rw [exec_accept, walk_eq_through, through_handled hall]
  · rw [exec_accept, walk_eq_through, hnodes, through_stop hbefore hm]

/-- A visitor for number literals and for expressions of any kind. -/
def exprCounter : Visitor :=
  ⟨"ExprCounter", fun op => op = .kind .number ∨ op = .expression⟩

/-- It comes to all of `1 * -2`, but to nothing of `write(1)`. -/
theorem exprCounter_falls_back :
    (exprCounter.handlers.accept (Expr.node .root
        (.arith .mul (.number (.int 1)) (.signed .minus (.number (.int 2)))))).exec [] =
      (.ok 4, [(.expression, "Binary(*)"), (.kind .number, "NumberLiteral(1)"),
        (.expression, "Unary(-)"), (.kind .number, "NumberLiteral(2)")]) ∧
    (exprCounter.handlers.accept (Stmt.node .root (.write (.number (.int 1))))).exec [] =
      (.error ⟨"ExprCounter", .write⟩, []) := by
  constructor
  · have hentries : (Expr.node .root (.arith .mul (.number (.int 1))
        (.signed .minus (.number (.int 2))))).nodes.map exprCounter.entry =
        [(.expression, "Binary(*)"), (.kind .number, "NumberLiteral(1)"),
          (.expression, "Unary(-)"), (.kind .number, "NumberLiteral(2)")] := by
      decide +kernel
    rw [(accept_falls_back exprCounter _ []).1 (by decide), hentries]
    rfl
  · have hnodes : (Stmt.node .root (.write (.number (.int 1)))).nodes =
        [] ++ Stmt.node .root (.write (.number (.int 1))) :: [Expr.node .expr (.number (.int 1))] := rfl
    exact (accept_falls_back exprCounter _ []).2.1 _ _ _ hnodes nofun (by decide)

end Visitor
end SyntaxGraph
