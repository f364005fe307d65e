/-
# An element is told by its label and its pieces

The pieces of an element are the elements right below it. The kind says how an
element is built from them, the detail gives its name, operator, text or
number. Floats are left aside: what is written of them need not say their bits.

Key definitions: `Element.pieces`, `Element.isFloat`.
Key theorems: `Node.Proper.elements_children`, `Element.eq_of_pieces`.
-/
import SyntaxGraph.Proofs.Tree.Siblings

namespace SyntaxGraph

/-! ### Pieces -/

/-- The elements right below an expression. -/
def Expr.pieces : Expr → List Element
  | arith _ l r | compare _ l r | logical _ l r => [.expression l, .expression r]
  | signed _ e | not e | entry _ e => [.expression e]
  | call _ es => es.map .expression
  | number _ | var _ => []

/-- The elements right below a statement. -/
def Stmt.pieces : Stmt → List Element
  | print _ | leave | skip => []
  | assign l e | update _ l e => [.expression l, .expression e]
  | ifThen e s | whileDo e s => [.expression e, .statement s]
  | ifThenElse e s t => [.expression e, .statement s, .statement t]
  | read e | write e | ret e => [.expression e]
  | block ss => ss.map .statement

namespace Element

/-- The elements right below an element. -/
def pieces : Element → List Element
  | program p => p.functions.map function
  | function f =>
    f.parameters.map parameter ++ (f.declarations.map declaration ++ f.body.map statement)
  | parameter d | declaration d => [typeName d.type]
  | typeName ⟨_, none⟩ => []
  | typeName ⟨_, some e⟩ => [expression e]
  | statement s => s.pieces
  | expression e => e.pieces

/-- The element is a float literal. -/
def isFloat : Element → Bool
  | expression (.number n) => n.isFloat
  | _ => false

end Element

namespace Node

theorem element_expr (role : Role) (e : Expr) : (e.node role).element = .expression e := by
  cases e <;> rfl

theorem element_stmt (role : Role) (s : Stmt) : (s.node role).element = .statement s := by
  cases s <;> rfl

theorem elements_mapIdx {α : Type} {tree : Nat → α → Node} {x : α → Element}
    (h : ∀ i a, (tree i a).element = x a) (as : List α) :
    (as.mapIdx tree).map element = as.map x := by
  refine List.ext_getElem (by simp) fun i hi _ => ?_
  simp [h]

/-- The children of a proper node show the pieces of its element. -/
theorem Proper.elements_children {n : Node} (hn : n.Proper) :
    n.children.map element = n.element.pieces := by
  obtain ⟨role, x, rfl⟩ := hn
  cases x with
  | program p => exact elements_mapIdx (x := .function) (fun _ _ => rfl) p.functions
  | function f =>
    show (_ ++ _ ++ _ : List Node).map element = _
    rw [List.map_append, List.map_append, Stmt.memberNodes_eq,
      elements_mapIdx (x := .parameter) fun _ _ => rfl,
      elements_mapIdx (x := .declaration) fun _ _ => rfl,
      elements_mapIdx (x := .statement) fun _ _ => element_stmt .., List.append_assoc]
    rfl
  | parameter d => rfl
  | declaration d => rfl
  | typeName t =>
    obtain ⟨base, size⟩ := t
    cases size with
    | none => rfl
    | some e => exact congrArg (· :: []) (element_expr .size e)
  | statement s =>
    cases s with
    | print | leave | skip => rfl
    | assign | update | ifThen | ifThenElse | whileDo | read | write | ret =>
      simp only [Element.node, Stmt.node, children, List.map_cons, List.map_nil, element_expr,
        element_stmt]
      rfl
    | block ss =>
      show (Stmt.memberNodes .statement 0 ss).map element = _
      rw [Stmt.memberNodes_eq, elements_mapIdx (x := .statement) fun _ _ => element_stmt ..]
      rfl
  | expression e =>
    cases e with
    | number | var => rfl
    | arith | signed | entry | compare | logical | not =>
      simp only [Element.node, Expr.node, children, List.map_cons, List.map_nil, element_expr]
      rfl
    | call _ es =>
      show (Expr.argumentNodes 0 es).map element = _
      rw [Expr.argumentNodes_eq, elements_mapIdx (x := .expression) fun _ _ => element_expr ..]
      rfl

end Node

/-! ### Operators and types -/

theorem Arith.symbol_injective : Function.Injective symbol := by
  intro a b h
  cases a <;> cases b <;> first | rfl | exact absurd h (by decide)

theorem Sign.symbol_injective : Function.Injective symbol := by
  intro a b h
  cases a <;> cases b <;> first | rfl | exact absurd h (by decide)

theorem Comparison.symbol_injective : Function.Injective symbol := by
  intro a b h
  cases a <;> cases b <;> first | rfl | exact absurd h (by decide)

theorem Connective.symbol_injective : Function.Injective symbol := by
  intro a b h
  cases a <;> cases b <;> first | rfl | exact absurd h (by decide)

theorem Update.symbol_injective : Function.Injective symbol := by
  intro a b h
  cases a <;> cases b <;> first | rfl | exact absurd h (by decide)

theorem BaseType.text_injective : Function.Injective text := by
  intro a b h
  cases a <;> cases b <;> first | rfl | exact absurd h (by decide)

theorem TypeName.eq_of_pieces {t u : TypeName} (hdetail : t.detail = u.detail)
    (hpieces : (Element.typeName t).pieces = (Element.typeName u).pieces) : t = u := by
  obtain ⟨base, size⟩ := t
  obtain ⟨base', size'⟩ := u
  cases size with
  | none =>
    cases size' with
    | none =>
      have htext : base.text = base'.text := hdetail
      rw [BaseType.text_injective htext]
    | some => cases hpieces
  | some e =>
    cases size' with
    | none => cases hpieces
    | some e' =>
      cases hpieces
      have htext : base.text ++ "[]" = base'.text ++ "[]" := hdetail
      rw [BaseType.text_injective ((String.append_left_inj _).mp htext)]

/-! ### Elements -/

theorem Expr.eq_of_pieces {e f : Expr} (he : (Element.expression e).isFloat = false)
    (hf : (Element.expression f).isFloat = false) (hkind : e.kind = f.kind)
    (hdetail : e.detail = f.detail) (hpieces : e.pieces = f.pieces) : e = f := by
  cases e with
  | arith op l r =>
    cases f with
    | arith op' =>
      cases hpieces
      rw [Arith.symbol_injective (Option.some.inj hdetail)]
    | _ => cases hkind
  | signed sign e =>
    cases f with
    | signed sign' =>
      cases hpieces
      rw [Sign.symbol_injective (Option.some.inj hdetail)]
    | _ => cases hkind
  | number n =>
    cases f with
    | number m =>
      cases n with
      | float => cases he
      | int i =>
        cases m with
        | float => cases hf
        | int j => rw [Decimal.intText_injective (Option.some.inj hdetail)]
    | _ => cases hkind
  | var name =>
    cases f with
    | var name' => rw [Option.some.inj (show some name = some name' from hdetail)]
    | _ => cases hkind
  | entry array i =>
    cases f with
    | entry array' =>
      cases hpieces
      rw [Option.some.inj (show some array = some array' from hdetail)]
    | _ => cases hkind
  | call function es =>
    cases f with
    | call function' fs =>
      have harguments : es = fs :=
        (List.map_inj_right fun _ _ => Element.expression.inj).mp hpieces
      rw [Option.some.inj (show some function = some function' from hdetail), harguments]
    | _ => cases hkind
  | compare op l r =>
    cases f with
    | compare op' =>
      cases hpieces
      rw [Comparison.symbol_injective (Option.some.inj hdetail)]
    | _ => cases hkind
  | logical op l r =>
    cases f with
    | logical op' =>
      cases hpieces
      rw [Connective.symbol_injective (Option.some.inj hdetail)]
    | _ => cases hkind
  | not e =>
    cases f with
    | not =>
      cases hpieces
      rfl
    | _ => cases hkind

/-- A statement is told by its kind, its detail and its pieces. -/
theorem Stmt.eq_of_pieces {s t : Stmt} (hkind : s.kind = t.kind) (hdetail : s.detail = t.detail)
    (hpieces : s.pieces = t.pieces) : s = t := by
  cases s with
  | print text =>
    cases t with
    | print text' => rw [Text.quoted_injective (Option.some.inj hdetail)]
    | _ => cases hkind
  | update op l e =>
    cases t with
    | update op' =>
      cases hpieces
      rw [Update.symbol_injective (Option.some.inj hdetail)]
    | _ => cases hkind
  | block ss =>
    cases t with
    | block ts =>
      rw [(List.map_inj_right fun _ _ => Element.statement.inj).mp hpieces]
    | _ => cases hkind
  | ifThen e s =>
    -- one kind for both, but an else branch is one more piece
    cases t with
    | ifThen =>
      cases hpieces
      rfl
    | ifThenElse => cases hpieces
    | _ => cases hkind
  | ifThenElse e s t' =>
    cases t with
    | ifThen => cases hpieces
    | ifThenElse =>
      cases hpieces
      rfl
    | _ => cases hkind
  | assign =>
    cases t with
    | assign =>
      cases hpieces
      rfl
    | _ => cases hkind
  | whileDo =>
    cases t with
    | whileDo =>
      cases hpieces
      rfl
    | _ => cases hkind
  | read =>
    cases t with
    | read =>
      cases hpieces
      rfl
    | _ => cases hkind
  | write =>
    cases t with
    | write =>
      cases hpieces
      rfl
    | _ => cases hkind
  | ret =>
    cases t with
    | ret =>
      cases hpieces
      rfl
    | _ => cases hkind
  | leave =>
    cases t with
    | leave => rfl
    | _ => cases hkind
  | skip =>
    cases t with
    | skip => rfl
    | _ => cases hkind

theorem Stmt.kind_ne (s : Stmt) {k : Kind} (h : k.category ≠ .statement) : k ≠ s.kind := by
  rintro rfl
  exact h (by cases s <;> rfl)

theorem Expr.kind_ne (e : Expr) {k : Kind} (h : k.category ≠ .expression) : k ≠ e.kind := by
  rintro rfl
  exact h (by cases e <;> rfl)

theorem Function.eq_of_pieces {f g : Function} (hname : f.name = g.name)
    (hpieces : (Element.function f).pieces = (Element.function g).pieces) : f = g := by
  have hparameter : ∀ ds : List Declaration, ∀ x ∈ ds.map Element.parameter,
      decide (x.kind = .parameter) = true := by
    intro ds x hx
    obtain ⟨d, -, rfl⟩ := List.mem_map.mp hx
    rfl
  have hdeclaration : ∀ ds : List Declaration, ∀ x ∈ ds.map Element.declaration,
      decide (x.kind = .declaration) = true := by
    intro ds x hx
    obtain ⟨d, -, rfl⟩ := List.mem_map.mp hx
    rfl
  have hbody : ∀ k : Kind, k.category ≠ .statement → ∀ ss : List Stmt,
      (ss.map Element.statement).head?.any (fun x => decide (x.kind = k)) = false := by
    intro k hk ss
    cases ss with
    | nil => rfl
    | cons s ss => exact decide_eq_false (s.kind_ne hk).symm
  have hrest : ∀ (ds : List Declaration) (ss : List Stmt),
      (ds.map Element.declaration ++ ss.map Element.statement).head?.any
        (fun x => decide (x.kind = .parameter)) = false := by
    intro ds ss
    cases ds with
    | nil => exact hbody .parameter nofun ss
    | cons d ds => rfl
  obtain ⟨hparameters, hpieces⟩ := run_append_inj (hparameter f.parameters)
    (hparameter g.parameters) (hrest _ _) (hrest _ _) hpieces
  obtain ⟨hdeclarations, hstatements⟩ := run_append_inj (hdeclaration f.declarations)
    (hdeclaration g.declarations) (hbody .declaration nofun _) (hbody .declaration nofun _) hpieces
  obtain ⟨name, parameters, declarations, body⟩ := f
  obtain ⟨name', parameters', declarations', body'⟩ := g
  obtain rfl : name = name' := hname
  obtain rfl : parameters = parameters' :=
    (List.map_inj_right fun _ _ => Element.parameter.inj).mp hparameters
  obtain rfl : declarations = declarations' :=
    (List.map_inj_right fun _ _ => Element.declaration.inj).mp hdeclarations
  obtain rfl : body = body' :=
    (List.map_inj_right fun _ _ => Element.statement.inj).mp hstatements
  rfl

theorem Declaration.eq_of_pieces {c d : Declaration} (hname : c.name = d.name)
    (htype : [Element.typeName c.type] = [Element.typeName d.type]) : c = d := by
  obtain ⟨name, type⟩ := c
  obtain ⟨name', type'⟩ := d
  obtain rfl : name = name' := hname
  cases htype
  rfl

/-- An element that is no float is told by its kind, its detail and its pieces. -/
theorem Element.eq_of_pieces {x y : Element} (hx : x.isFloat = false) (hy : y.isFloat = false)
    (hkind : x.kind = y.kind) (hdetail : x.detail = y.detail) (hpieces : x.pieces = y.pieces) :
    x = y := by
  cases x with
  | program p =>
    cases y with
    | program q =>
      have hfunctions : p.functions = q.functions :=
        (List.map_inj_right fun _ _ => Element.function.inj).mp hpieces
      exact congrArg (fun fs => program ⟨fs⟩) hfunctions
    | statement s => exact absurd hkind (s.kind_ne nofun)
    | expression e => exact absurd hkind (e.kind_ne nofun)
    | _ => cases hkind
  | function f =>
    cases y with
    | function g => rw [Function.eq_of_pieces (Option.some.inj hdetail) hpieces]
    | statement s => exact absurd hkind (s.kind_ne nofun)
    | expression e => exact absurd hkind (e.kind_ne nofun)
    | _ => cases hkind
  | parameter c =>
    cases y with
    | parameter d => rw [Declaration.eq_of_pieces (Option.some.inj hdetail) hpieces]
    | statement s => exact absurd hkind (s.kind_ne nofun)
    | expression e => exact absurd hkind (e.kind_ne nofun)
    | _ => cases hkind
  | declaration c =>
    cases y with
    | declaration d => rw [Declaration.eq_of_pieces (Option.some.inj hdetail) hpieces]
    | statement s => exact absurd hkind (s.kind_ne nofun)
    | expression e => exact absurd hkind (e.kind_ne nofun)
    | _ => cases hkind
  | typeName t =>
    cases y with
    | typeName u => rw [TypeName.eq_of_pieces (Option.some.inj hdetail) hpieces]
    | statement s => exact absurd hkind (s.kind_ne nofun)
    | expression e => exact absurd hkind (e.kind_ne nofun)
    | _ => cases hkind
  | statement s =>
    cases y with
    | statement t => rw [Stmt.eq_of_pieces hkind hdetail hpieces]
    | expression e => exact absurd hkind (e.kind_ne (by cases s <;> nofun))
    | _ => exact absurd hkind.symm (s.kind_ne nofun)
  | expression e =>
    cases y with
    | expression f => rw [Expr.eq_of_pieces hx hy hkind hdetail hpieces]
    | statement s => exact absurd hkind (s.kind_ne (by cases e <;> nofun))
    | _ => exact absurd hkind.symm (e.kind_ne nofun)

end SyntaxGraph
