/-
# Roles and labels tell nodes apart

The text of a role is a word, with a number in brackets for the members of a
list, so roles differ if their texts do. The children of a node play different
roles. A label is the name of a kind, with the detail in parentheses, so it says
both.

Key definitions: `Role.parts`.
Key theorems: `Role.text_injective`, `Node.Proper.nodup_roles`, `Element.label_inj`.
-/
import SyntaxGraph.Proofs.Text.Delimited
import SyntaxGraph.Proofs.Tree.Preorder

namespace SyntaxGraph

/-! ### Roles -/

namespace Role

/-- The word of a role, and the number of a member of a list. -/
def parts : Role → String × Option Nat
  | root => ("", none)
  | function i => ("functions", some i)
  | parameter i => ("parameters", some i)
  | declaration i => ("declarations", some i)
  | body i => ("body", some i)
  | statement i => ("statements", some i)
  | argument i => ("arguments", some i)
  | type => ("type", none)
  | size => ("size", none)
  | location => ("location", none)
  | expr => ("expr", none)
  | condition => ("condition", none)
  | thenBranch => ("then", none)
  | elseBranch => ("else", none)
  | loopBody => ("body", none)
  | left => ("left", none)
  | right => ("right", none)
  | operand => ("operand", none)
  | index => ("index", none)

/-- The role with these parts. -/
def ofParts : String × Option Nat → Role
  | ("functions", some i) => function i
  | ("parameters", some i) => parameter i
  | ("declarations", some i) => declaration i
  | ("body", some i) => body i
  | ("statements", some i) => statement i
  | ("arguments", some i) => argument i
  | ("type", none) => type
  | ("size", none) => size
  | ("location", none) => location
  | ("expr", none) => expr
  | ("condition", none) => condition
  | ("then", none) => thenBranch
  | ("else", none) => elseBranch
  | ("body", none) => loopBody
  | ("left", none) => left
  | ("right", none) => right
  | ("operand", none) => operand
  | ("index", none) => index
  | _ => root

theorem ofParts_parts (r : Role) : ofParts r.parts = r := by
  cases r <;> rfl

theorem text_eq (r : Role) :
    r.text = r.parts.1 ++ Text.within '[' ']' (r.parts.2.map Decimal.natText) := by
  cases r with
  | function i | parameter i | declaration i | body i | statement i | argument i =>
    rw [parts, Option.map_some, Text.within, ← String.append_assoc, ← String.append_assoc]
    rfl
  | root | type | size | location | expr | condition | thenBranch | elseBranch | loopBody | left
  | right | operand | index => rfl

/-- Roles differ if their texts do. -/
theorem text_injective {r s : Role} (h : r.text = s.text) : r = s := by
  have hword : ∀ r : Role, '[' ∉ r.parts.1.toList := by
    intro r
    cases r <;> simp only [parts] <;> decide
  rw [text_eq, text_eq] at h
  obtain ⟨hname, hnumber⟩ := Text.append_within_inj (hword r) (hword s) h
  have hparts : r.parts = s.parts :=
    Prod.ext hname ((Option.map_inj_right fun _ _ => Decimal.natText_injective).mp hnumber)
  rw [← ofParts_parts r, hparts, ofParts_parts]

end Role

/-! ### The roles of children -/

namespace Node

theorem role_expr (role : Role) (e : Expr) : (e.node role).role = role := by
  cases e <;> rfl

theorem role_stmt (role : Role) (s : Stmt) : (s.node role).role = role := by
  cases s <;> rfl

theorem roles_mapIdx {α : Type} {t : Nat → α → Node} {r : Nat → Role} (h : ∀ i a, (t i a).role = r i)
    (as : List α) : (as.mapIdx t).map role = (List.range' 0 as.length).map r := by
  refine List.ext_getElem (by simp) fun i hi _ => ?_
  simp [h]

theorem nodup_members {r : Nat → Role} (h : Function.Injective r) (k n : Nat) :
    ((List.range' k n).map r).Nodup :=
  List.Pairwise.map r (fun _ _ hne heq => hne (h heq)) List.nodup_range'

/-- The children of a proper node play different roles. -/
theorem Proper.nodup_roles {n : Node} (hn : n.Proper) : (n.children.map role).Nodup := by
  obtain ⟨r, x, rfl⟩ := hn
  cases x with
  | program p =>
    have hroles : ((Element.program p).node r).children.map role =
        (List.range' 0 p.functions.length).map .function :=
      roles_mapIdx (r := .function) (fun _ _ => rfl) p.functions
    rw [hroles]
    exact nodup_members (fun _ _ h => Role.function.inj h) ..
  | function f =>
    have hroles : ((Element.function f).node r).children.map role =
        (List.range' 0 f.parameters.length).map .parameter ++
          (List.range' 0 f.declarations.length).map .declaration ++
          (List.range' 0 f.body.length).map .body := by
      show (_ ++ _ ++ _ : List Node).map role = _
      rw [List.map_append, List.map_append, Stmt.memberNodes_eq,
        roles_mapIdx (r := .parameter) fun _ _ => rfl,
        roles_mapIdx (r := .declaration) fun _ _ => rfl,
        roles_mapIdx (r := .body) fun _ _ => role_stmt ..]
    rw [hroles]
    refine List.nodup_append.mpr ⟨List.nodup_append.mpr ⟨?_, ?_, by simp⟩, ?_, ?_⟩
    · exact nodup_members (fun _ _ h => Role.parameter.inj h) ..
    · exact nodup_members (fun _ _ h => Role.declaration.inj h) ..
    · exact nodup_members (fun _ _ h => Role.body.inj h) ..
    · intro a ha b hb
      obtain ⟨k, -, rfl⟩ := List.mem_map.mp hb
      rcases List.mem_append.mp ha with ha | ha
      · obtain ⟨i, -, rfl⟩ := List.mem_map.mp ha
        exact nofun
      · obtain ⟨i, -, rfl⟩ := List.mem_map.mp ha
        exact nofun
  | parameter d => exact List.pairwise_singleton ..
  | declaration d => exact List.pairwise_singleton ..
  | typeName t =>
    obtain ⟨base, size⟩ := t
    cases size with
    | none => exact List.nodup_nil
    | some e => exact List.pairwise_singleton ..
  | statement s =>
    cases s with
    | print | leave | skip => exact List.nodup_nil
    | read | write | ret => exact List.pairwise_singleton ..
    | assign | update | ifThen | ifThenElse | whileDo =>
      simp only [Element.node, Stmt.node, children, List.map_cons, List.map_nil, role_expr, role_stmt]
      decide
    | block ss =>
      show ((Stmt.memberNodes .statement 0 ss).map role).Nodup
      rw [Stmt.memberNodes_eq, roles_mapIdx (r := .statement) fun _ _ => role_stmt ..]
      exact nodup_members (fun _ _ h => Role.statement.inj h) ..
  | expression e =>
    cases e with
    | number | var => exact List.nodup_nil
    | signed | not | entry => exact List.pairwise_singleton ..
    | arith | compare | logical =>
      simp only [Element.node, Expr.node, children, List.map_cons, List.map_nil, role_expr]
      decide
    | call _ es =>
      show ((Expr.argumentNodes 0 es).map role).Nodup
      rw [Expr.argumentNodes_eq, roles_mapIdx (r := .argument) fun _ _ => role_expr ..]
      exact nodup_members (fun _ _ h => Role.argument.inj h) ..

end Node

/-! ### Labels -/

theorem Kind.name_injective : Function.Injective name :=
  injective_of_find? mem_all (by decide)

theorem Kind.bracket_not_mem_name (k : Kind) : '(' ∉ k.name.toList := by
  cases k <;> decide

theorem Element.label_eq (x : Element) :
    x.label = x.kind.name ++ Text.within '(' ')' x.detail := by
  unfold label
  cases x.detail with
  | none => exact (String.append_empty).symm
  | some detail =>
    simp only [Text.within, ← String.append_assoc]
    rfl

/-- A label says the kind and the detail. -/
theorem Element.label_inj {x y : Element} (h : x.label = y.label) :
    x.kind = y.kind ∧ x.detail = y.detail := by
  rw [label_eq, label_eq] at h
  obtain ⟨hname, hdetail⟩ := Text.append_within_inj x.kind.bracket_not_mem_name
    y.kind.bracket_not_mem_name h
  exact ⟨Kind.name_injective hname, hdetail⟩

end SyntaxGraph
