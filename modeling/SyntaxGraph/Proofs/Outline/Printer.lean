/-
# A printer that keeps its depth and a role

The outline is printed by a visitor with a state: the text so far, how deep it is, and
a role that the next line starts with, if one is set. A child is visited one level
deeper with its role set, and the printer comes back to its depth behind it.

Whatever the state is, a node of a program prints its own line with the role that is
set, prints what is below it one level deeper, and leaves the depth as it was and no
role set. So the printer never fails, and it prints the outline of the program.

Key definitions: `Printer`, `Printer.handlers`, `Program.print`, `Printer.Prints`,
`Printer.Writes`.
Key theorems: `Printer.writes_children`, `Printer.exists_prints`, `Program.print_eq`.
-/
import Mathlib.Data.List.Forall2
import SyntaxGraph.Proofs.Outline.Entries
import SyntaxGraph.Proofs.Tree.Throughout
import SyntaxGraph.Proofs.Visit.Dispatch

namespace SyntaxGraph

/-! ### The printer -/

/-- The state of a printer. -/
structure Printer where
  out : String
  depth : Nat
  /-- What the next line starts with. -/
  role : Option String

namespace Printer

/-- Two spaces for each level of depth. -/
def indentation (depth : Nat) : String :=
  String.join (List.replicate depth "  ")

/-- The start of a line: an index in brackets as it is, and a role with a colon. -/
def opening : Option String → String
  | none => ""
  | some role => if role.toList.head? = some '[' then role ++ " " else role ++ ": "

/-- Prints a line, which takes the role. -/
def line (text : String) : Visit Printer Unit :=
  modify fun p =>
    ⟨p.out ++ (indentation p.depth ++ (opening p.role ++ text) ++ "\n"), p.depth, none⟩

/-- Visits a node one level deeper with a role, and comes back even if that fails. -/
def child (role : String) (act : Visit Printer Unit) : Visit Printer Unit := do
  modify fun p => ⟨p.out, p.depth + 1, some role⟩
  let result ← ExceptT.lift act.run
  modify fun p => ⟨p.out, p.depth - 1, p.role⟩
  match result with
  | .ok _ => pure ()
  | .error e => throw e

/-- Visits nodes in turn, each with its role, up to the first failure. -/
def children : List (String × Visit Printer Unit) → Visit Printer Unit
  | [] => pure ()
  | b :: bs => do
    child b.1 b.2
    children bs

/-- Nodes with their indices as roles. -/
def numbered (acts : List (Visit Printer Unit)) : List (String × Visit Printer Unit) :=
  acts.mapIdx fun i act => ("[" ++ Decimal.natText i ++ "]", act)

/-- Does something one level deeper. A failure is passed on at once. -/
def deeper (act : Visit Printer Unit) : Visit Printer Unit := do
  modify fun p => ⟨p.out, p.depth + 1, p.role⟩
  act
  modify fun p => ⟨p.out, p.depth - 1, p.role⟩

/-- Prints a title and the members of a list below it. -/
def titled (title : String) (members : List (Visit Printer Unit)) : Visit Printer Unit :=
  deeper <|
    if members.isEmpty then line (title ++ ": (none)")
    else do
      line (title ++ ":")
      children (numbered members)

/-- Prints the label of an element and what is below it, with the roles of the nodes. -/
def labelled (x : Element) (below : Below Printer Unit) : Visit Printer Unit := do
  line x.label
  children (below.map fun b => (b.1.text, b.2))

/-- Prints a function: the nodes below it are its parameters, declarations and
statements, in this order. -/
def sections (f : Function) (below : Below Printer Unit) : Visit Printer Unit := do
  let members := below.map Prod.snd
  let others := members.drop f.parameters.length
  line (Element.function f).label
  titled "parameters" (members.take f.parameters.length)
  titled "declarations" (others.take f.declarations.length)
  titled "body" (others.drop f.declarations.length)

/-- The printer as a visitor. Statements, parameters, declarations and types fall back
to what is printed for all nodes. -/
def handlers : Handlers Printer Unit where
  name := "TreePrinter"
  program := some fun _ below => do
    line "Program"
    children (numbered (below.map Prod.snd))
  function := some sections
  expression := some fun e _ => line e.inlineText
  node := some labelled

end Printer

/-- The outline of a program as the printer prints it, or why it fails. -/
def Program.print (p : Program) : Except Unsupported String :=
  match (Printer.handlers.accept p.node).exec ⟨"", 0, none⟩ with
  | (.ok _, q) => .ok q.out
  | (.error e, _) => .error e

/-- The entries of a function's sections. -/
def Function.entriesBelow (f : Function) : List Entry :=
  [.ofSection "parameters" (f.parameters.mapIdx fun i d => d.entry .parameter (.member i)),
    .ofSection "declarations" (f.declarations.mapIdx fun i d => d.entry .declaration (.member i)),
    .ofSection "body" (f.body.mapIdx fun i s => s.entry (.member i))]

namespace Printer

/-! ### What is printed -/

/-- The text of lines with their depths. -/
def text (ls : List (Nat × String)) : String :=
  Text.unlines (ls.map fun l => indentation l.1 ++ l.2)

theorem text_cons (l : Nat × String) (ls : List (Nat × String)) :
    text (l :: ls) = indentation l.1 ++ l.2 ++ "\n" ++ text ls := by
  simp [text, Text.unlines]

theorem text_append (ls ms : List (Nat × String)) : text (ls ++ ms) = text ls ++ text ms := by
  simp [text, Text.unlines]

/-- Whatever the state is, the line `content` is printed with the role that is set, the
entries `below` it are printed one level deeper, and then the depth is what it was and
no role is set. -/
def Prints (act : Visit Printer Unit) (content : String) (below : List Entry) : Prop :=
  ∀ p : Printer, act.exec p =
    (.ok (), ⟨p.out ++ text ((Entry.mk (opening p.role ++ content) below).lines p.depth),
      p.depth, none⟩)

/-- Where no role is set, the entries are printed one level deeper, and then the depth is
what it was and no role is set. -/
def Writes (act : Visit Printer Unit) (es : List Entry) : Prop :=
  ∀ out depth, act.exec ⟨out, depth, none⟩ =
    (.ok (), ⟨out ++ text (Entry.linesAll (depth + 1) es), depth, none⟩)

variable {act act' : Visit Printer Unit} {content : String} {below es fs : List Entry}

theorem exec_line (content : String) (p : Printer) : (line content).exec p =
    (.ok (), ⟨p.out ++ text [(p.depth, opening p.role ++ content)], p.depth, none⟩) := by
  rw [text_cons, show text [] = "" from rfl, String.append_empty]
  rfl

/-- A child comes back to the depth, whether it fails or not. -/
theorem exec_child (role : String) (act : Visit Printer Unit) (p : Printer) :
    (child role act).exec p =
      let (result, q) := act.exec ⟨p.out, p.depth + 1, some role⟩
      (result, ⟨q.out, q.depth - 1, q.role⟩) := by
  have hlift : Action.exec (ε := Unsupported) (ExceptT.lift act.run)
      ⟨p.out, p.depth + 1, some role⟩ = (.ok (act.exec ⟨p.out, p.depth + 1, some role⟩).1,
        (act.exec ⟨p.out, p.depth + 1, some role⟩).2) := rfl
  simp only [child, Action.exec_bind, Action.exec_modify, hlift]
  rcases act.exec ⟨p.out, p.depth + 1, some role⟩ with ⟨_ | _, q⟩ <;> rfl

/-! ### Actions that print entries -/

theorem Prints.of_line (h : Writes act es) : Prints (do line content; act) content es := by
  intro p
  rw [Action.exec_bind, exec_line]
  dsimp only
  rw [h, Entry.lines, text_cons, text_cons]
  simp [text, Text.unlines, String.append_assoc]

theorem prints_line (content : String) : Prints (line content) content [] :=
  fun p => exec_line content p

theorem Writes.nil : Writes (pure ()) [] := by
  intro out depth
  simp [text, Text.unlines, Entry.linesAll]

theorem Writes.seq (h : Writes act es) (h' : Writes act' fs) : Writes (do act; act') (es ++ fs) := by
  intro out depth
  rw [Action.exec_bind, h]
  dsimp only
  rw [h', String.append_assoc, ← text_append, Entry.linesAll_eq_flatMap, Entry.linesAll_eq_flatMap,
    Entry.linesAll_eq_flatMap, List.flatMap_append]

/-- A child prints its entry with its role. -/
theorem Prints.child (h : Prints act content below) (role : String) :
    Writes (child role act) [.mk (opening (some role) ++ content) below] := by
  intro out depth
  rw [exec_child, h]
  simp [Entry.linesAll]

/-- Without a role, an entry is printed as it is. -/
theorem Prints.deeper (h : Prints act content below) : Writes (deeper act) [.mk content below] := by
  intro out depth
  rw [Printer.deeper, Action.exec_bind, Action.exec_modify]
  dsimp only
  rw [Action.exec_bind, h]
  simp [Entry.linesAll, opening]

theorem opening_role (r : Role) : opening (some r.text) = (Lead.role r).text := by
  have hhead : r.text.toList.head? ≠ some '[' := by
    cases r <;> simp [Role.text]
  rw [opening, if_neg hhead, Lead.text]

theorem opening_member (i : Nat) :
    opening (some ("[" ++ Decimal.natText i ++ "]")) = (Lead.member i).text := by
  have hhead : ("[" ++ Decimal.natText i ++ "]").toList.head? = some '[' := by simp
  rw [opening, if_pos hhead, Lead.text, String.append_assoc, String.append_assoc]
  rfl

/-! ### Children -/

/-- Visited as a child with its role, a node prints the entry. -/
def PrintsEntry (b : String × Visit Printer Unit) (e : Entry) : Prop :=
  ∃ content below, Prints b.2 content below ∧ e = .mk (opening (some b.1) ++ content) below

theorem Prints.entry_role (h : Prints act content below) (r : Role) :
    PrintsEntry (r.text, act) (.mk ((Lead.role r).text ++ content) below) :=
  ⟨content, below, h, by rw [opening_role]⟩

theorem Prints.entry_member (h : Prints act content below) (i : Nat) :
    PrintsEntry ("[" ++ Decimal.natText i ++ "]", act)
      (.mk ((Lead.member i).text ++ content) below) :=
  ⟨content, below, h, by rw [opening_member]⟩

/-- Children print their entries in turn. -/
theorem writes_children {bs : List (String × Visit Printer Unit)} {es : List Entry}
    (h : List.Forall₂ PrintsEntry bs es) : Writes (children bs) es := by
  induction h with
  | nil => exact .nil
  | cons hb _ ih =>
    obtain ⟨content, below, hprints, rfl⟩ := hb
    exact (hprints.child _).seq ih

theorem forall₂_mapIdx {α β γ : Type} {R : β → γ → Prop} {f : Nat → α → β} {g : Nat → α → γ}
    {as : List α} (h : ∀ i, ∀ a ∈ as, R (f i a) (g i a)) :
    List.Forall₂ R (as.mapIdx f) (as.mapIdx g) := by
  induction as generalizing f g with
  | nil => exact .nil
  | cons a as ih =>
    rw [List.mapIdx_cons, List.mapIdx_cons]
    exact .cons (h 0 a (.head _)) (ih fun i b hb => h (i + 1) b (.tail _ hb))

theorem map_mapIdx {α β γ : Type} (f : Nat → α → β) (g : β → γ) (as : List α) :
    (as.mapIdx f).map g = as.mapIdx fun i a => g (f i a) := by
  simp [List.mapIdx_eq_zipIdx_map]

/-- Members of a list print the entries that they have with their indices. -/
theorem printsEntry_numbered {α : Type} {tree : Nat → α → Node} {content : α → String}
    {below : α → List Entry}
    (h : ∀ i a, Prints (handlers.accept (tree i a)) (content a) (below a)) (as : List α) :
    List.Forall₂ PrintsEntry (numbered ((as.mapIdx tree).map handlers.accept))
      (as.mapIdx fun i a => .mk ((Lead.member i).text ++ content a) (below a)) := by
  rw [map_mapIdx, numbered, List.mapIdx_mapIdx]
  exact forall₂_mapIdx fun i a _ => (h i a).entry_member i

/-- A title prints the entry of its section. -/
theorem writes_titled {acts : List (Visit Printer Unit)} {es : List Entry} (title : String)
    (h : List.Forall₂ PrintsEntry (numbered acts) es) :
    Writes (titled title acts) [Entry.ofSection title es] := by
  have hlength : acts.length = es.length := by simpa [numbered] using h.length_eq
  rw [titled, Entry.ofSection]
  cases acts with
  | nil =>
    obtain rfl := List.length_eq_zero_iff.mp hlength.symm
    exact (prints_line _).deeper
  | cons act acts =>
    have hes : es.isEmpty = false := by
      cases es with
      | nil => cases hlength
      | cons => rfl
    rw [hes]
    exact (Prints.of_line (writes_children h)).deeper

/-! ### The nodes of a program -/

variable (role : Role)

theorem prints_expr (e : Expr) : Prints (handlers.accept (e.node role)) e.inlineText [] := by
  have haccept : handlers.accept (e.node role) = line e.inlineText := by
    rw [Handlers.accept_eq, Node.element_expr, Handlers.visit_eq]
    rfl
  rw [haccept]
  exact prints_line _

/-- As a child with its own role, the node prints the entry. -/
def PrintsNode (n : Node) (e : Entry) : Prop :=
  PrintsEntry (n.role.text, handlers.accept n) e

/-- A node whose visit falls back to the operation of all nodes. -/
theorem prints_labelled {n : Node} {es : List Entry}
    (hvisit : handlers.visit n.element = labelled n.element)
    (h : List.Forall₂ PrintsNode n.children es) : Prints (handlers.accept n) n.label es := by
  rw [Handlers.accept_eq, hvisit, Handlers.acceptAll_eq_map, labelled, List.map_map]
  exact .of_line (writes_children (List.forall₂_map_left_iff.mpr h))

theorem printsNode_expr (r : Role) (e : Expr) : PrintsNode (e.node r) (e.entryAs (.role r)) := by
  rw [PrintsNode, Node.role_expr]
  exact (prints_expr r e).entry_role r

/-- A statement prints its label and the entries below it. -/
theorem prints_stmt (s : Stmt) (role : Role) :
    Prints (handlers.accept (s.node role)) (Element.statement s).label s.entriesBelow := by
  induction s using Stmt.induction generalizing role with
  | step s ih =>
    have hstmt : ∀ (r : Role) (t : Stmt), .statement t ∈ s.pieces →
        PrintsNode (t.node r) (t.entry (.role r)) := by
      intro r t ht
      rw [PrintsNode, Node.role_stmt, Stmt.entry_eq]
      exact (ih t ht r).entry_role r
    have hvisit : handlers.visit (.statement s) = labelled (.statement s) := by
      rw [Handlers.visit_eq]
      rfl
    have hlabel : (s.node role).label = (Element.statement s).label := by
      rw [Node.label, Node.element_stmt]
    rw [← hlabel]
    refine prints_labelled (by rw [Node.element_stmt, hvisit]) ?_
    cases s with
    | print | leave | skip => exact .nil
    | assign l e | update _ l e => exact .cons (printsNode_expr _ l) (.cons (printsNode_expr _ e) .nil)
    | ifThen c s | whileDo c s =>
      exact .cons (printsNode_expr _ c) (.cons (hstmt _ s (by simp [Stmt.pieces])) .nil)
    | ifThenElse c s t =>
      exact .cons (printsNode_expr _ c) (.cons (hstmt _ s (by simp [Stmt.pieces]))
        (.cons (hstmt _ t (by simp [Stmt.pieces])) .nil))
    | read e | write e | ret e => exact .cons (printsNode_expr _ e) .nil
    | block ss =>
      show List.Forall₂ PrintsNode (Stmt.memberNodes .statement 0 ss) _
      rw [Stmt.memberNodes_eq]
      exact forall₂_mapIdx fun i s hs => hstmt _ s (List.mem_map_of_mem hs)

theorem prints_type (t : TypeName) :
    Prints (handlers.accept (t.node role)) (Element.typeName t).label
      (t.size.toList.map (Expr.entryAs (.role .size))) := by
  obtain ⟨base, _ | e⟩ := t
  · exact prints_labelled (n := TypeName.node role ⟨base, none⟩) rfl .nil
  · exact prints_labelled (n := TypeName.node role ⟨base, some e⟩) rfl
      (.cons (printsNode_expr _ e) .nil)

theorem printsNode_type (d : Declaration) :
    List.Forall₂ PrintsNode [d.type.node .type] [d.type.entry (.role .type)] :=
  .cons ((prints_type .type d.type).entry_role .type) .nil

theorem prints_parameter (d : Declaration) :
    Prints (handlers.accept (d.parameterNode role)) (Element.parameter d).label
      [d.type.entry (.role .type)] :=
  prints_labelled (n := d.parameterNode role) rfl (printsNode_type d)

theorem prints_local (d : Declaration) :
    Prints (handlers.accept (d.localNode role)) (Element.declaration d).label
      [d.type.entry (.role .type)] :=
  prints_labelled (n := d.localNode role) rfl (printsNode_type d)

theorem prints_function (f : Function) :
    Prints (handlers.accept (f.node role)) (Element.function f).label f.entriesBelow := by
  have haccept : handlers.accept (f.node role) =
      sections f (handlers.acceptAll (f.node role).children) := rfl
  -- the nodes below are the members of the lists in turn
  have hmembers : (handlers.acceptAll (f.node role).children).map Prod.snd =
      (f.parameters.mapIdx fun i d => d.parameterNode (.parameter i)).map handlers.accept ++
        ((f.declarations.mapIdx fun i d => d.localNode (.declaration i)).map handlers.accept ++
          (f.body.mapIdx fun i s => s.node (.body i)).map handlers.accept) := by
    rw [Handlers.acceptAll_eq_map, List.map_map, Function.node, Node.children, Stmt.memberNodes_eq]
    simp [Function.comp_def]
  have hparameters := writes_titled "parameters"
    (printsEntry_numbered (fun i d => prints_parameter (.parameter i) d) f.parameters)
  have hdeclarations := writes_titled "declarations"
    (printsEntry_numbered (fun i d => prints_local (.declaration i) d) f.declarations)
  have hbody := writes_titled "body"
    (printsEntry_numbered (fun i s => prints_stmt s (.body i)) f.body)
  rw [haccept, sections, hmembers, List.take_left' (by simp), List.drop_left' (by simp),
    List.take_left' (by simp), List.drop_left' (by simp)]
  simp only [Function.entriesBelow, Stmt.entry_eq]
  exact .of_line (hparameters.seq (hdeclarations.seq hbody))

theorem prints_program (p : Program) : Prints (handlers.accept p.node) (Element.program p).label
    (p.functions.mapIdx fun i f => f.entry i) := by
  have hfunctions := printsEntry_numbered (fun i f => prints_function (.function i) f) p.functions
  have haccept : handlers.accept p.node = (do
      line "Program"
      children (numbered ((handlers.acceptAll p.node.children).map Prod.snd))) := rfl
  rw [haccept, Handlers.acceptAll_eq_map, List.map_map]
  exact .of_line (writes_children hfunctions)

/-- What the line of an element shows: an expression as a whole, and the label of
everything else. -/
def lineOf : Element → String
  | .expression e => e.inlineText
  | x => x.label

/-- **Every node prints its line and the entries below it**, whatever the state is. -/
theorem exists_prints (x : Element) :
    ∃ below, Prints (handlers.accept (x.node role)) (lineOf x) below := by
  cases x with
  | program p => exact ⟨_, prints_program p⟩
  | function f => exact ⟨_, prints_function role f⟩
  | parameter d => exact ⟨_, prints_parameter role d⟩
  | declaration d => exact ⟨_, prints_local role d⟩
  | typeName t => exact ⟨_, prints_type role t⟩
  | statement s => exact ⟨_, prints_stmt s role⟩
  | expression e => exact ⟨_, prints_expr role e⟩

/-! ### The text of the outline -/

theorem indentation_eq (depth : Nat) :
    indentation depth = String.ofList (List.replicate (2 * depth) ' ') := by
  induction depth with
  | zero => rfl
  | succ depth ih =>
    have hsucc : indentation (depth + 1) = "  " ++ indentation depth := by
      simp [indentation, List.replicate_succ]
    rw [hsucc, ih]
    apply String.toList_inj.mp
    simp [Nat.mul_add, List.replicate_succ]

theorem text_shown (ls : List Line) : text (ls.map Line.shown) = Text.unlines (ls.map Line.text) := by
  rw [text, List.map_map]
  congr 1
  refine List.map_congr_left fun l _ => ?_
  simp [Line.shown, Line.text, indentation_eq, String.append_assoc]

end Printer

/-- **The printer prints the outline**, and it never fails. Whatever its state is when it
comes to a node, the node's own line starts with the role that is set, no line below it
does, and behind the node the depth is what it was and no role is set. -/
theorem Program.print_eq (p : Program) :
    p.print = .ok p.outlineText ∧
      ∀ m ∈ p.node.nodes, ∃ below,
        Printer.Prints (Printer.handlers.accept m) (Printer.lineOf m.element) below := by
  constructor
  · have htext : p.outlineText = Printer.text (p.entry.lines 0) := by
      rw [outlineText, ← Printer.text_shown, Program.shown_outline]
    rw [Program.print, Printer.prints_program p ⟨"", 0, none⟩, htext, Program.entry, Element.entry]
    simp [Printer.opening, Lead.text]
  · intro m hm
    obtain ⟨role, x, rfl⟩ := (Node.proper_node .root (.program p)).of_mem_nodes hm
    rw [Node.element_node]
    exact Printer.exists_prints role x

/-- A function with empty sections: its statement prints an expression below itself. -/
theorem Program.print_empty_sections :
    Program.print ⟨[⟨"main", [], [], [.write (.arith .add (.number (.int 1)) (.var "x"))]⟩]⟩ =
      .ok ("Program\n  [0] Function(main)\n    parameters: (none)\n    declarations: (none)\n" ++
        "    body:\n      [0] Write\n        expr: 1 + x\n") ∧
    ∃ below, Printer.Prints (Printer.handlers.accept
      (Stmt.node (.body 0) (.write (.arith .add (.number (.int 1)) (.var "x"))))) "Write" below := by
  obtain ⟨hprint, hnodes⟩ := Program.print_eq
    ⟨[⟨"main", [], [], [.write (.arith .add (.number (.int 1)) (.var "x"))]⟩]⟩
  constructor
  · rw [hprint]
    exact congrArg Except.ok (by decide +kernel)
  · exact hnodes _ (.tail _ (.tail _ (.head _)))

end SyntaxGraph
