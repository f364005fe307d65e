/-
# Equality of programs

Two programs agree when they have the same shape, names and texts, and their
numbers agree by a given test. With a test for equality of numbers, to agree is
to be equal (`Program.agree_iff`), so equality of programs can be decided. The
programs are *the same* when their numbers have the same values: a float that
is no number then differs from itself, and so does a program with one.

Key definitions: `Expr.agree`, `Stmt.agree`, `Program.agree`, `Program.same`.
Key theorems: `Program.agree_iff`.
-/
import SyntaxGraph.Tree.Basic

namespace SyntaxGraph

variable (eq : Number → Number → Bool)

mutual

/-- The expressions agree. -/
def Expr.agree : Expr → Expr → Bool
  | .arith o l r, .arith o' l' r' => o = o' && l.agree l' && r.agree r'
  | .signed s e, .signed s' e' => s = s' && e.agree e'
  | .number n, .number n' => eq n n'
  | .var x, .var x' => x = x'
  | .entry a i, .entry a' i' => a = a' && i.agree i'
  | .call f es, .call f' es' => f = f' && Expr.agreeAll es es'
  | .compare o l r, .compare o' l' r' => o = o' && l.agree l' && r.agree r'
  | .logical o l r, .logical o' l' r' => o = o' && l.agree l' && r.agree r'
  | .not e, .not e' => e.agree e'
  | _, _ => false

/-- The expressions agree one by one, and are as many. -/
def Expr.agreeAll : List Expr → List Expr → Bool
  | [], [] => true
  | e :: es, e' :: es' => e.agree e' && Expr.agreeAll es es'
  | _, _ => false

end

mutual

/-- The statements agree. -/
def Stmt.agree : Stmt → Stmt → Bool
  | .print t, .print t' => t = t'
  | .assign l e, .assign l' e' => l.agree eq l' && e.agree eq e'
  | .update o l e, .update o' l' e' => o = o' && l.agree eq l' && e.agree eq e'
  | .ifThen c s, .ifThen c' s' => c.agree eq c' && s.agree s'
  | .ifThenElse c s t, .ifThenElse c' s' t' => c.agree eq c' && s.agree s' && t.agree t'
  | .whileDo c s, .whileDo c' s' => c.agree eq c' && s.agree s'
  | .read l, .read l' => l.agree eq l'
  | .write e, .write e' => e.agree eq e'
  | .ret e, .ret e' => e.agree eq e'
  | .leave, .leave => true
  | .skip, .skip => true
  | .block ss, .block ss' => Stmt.agreeAll ss ss'
  | _, _ => false

/-- The statements agree one by one, and are as many. -/
def Stmt.agreeAll : List Stmt → List Stmt → Bool
  | [], [] => true
  | s :: ss, s' :: ss' => s.agree s' && Stmt.agreeAll ss ss'
  | _, _ => false

end

/-- The types agree. -/
def TypeName.agree (t t' : TypeName) : Bool :=
  t.base = t'.base && match t.size, t'.size with
    | none, none => true
    | some e, some e' => e.agree eq e'
    | _, _ => false

/-- The declarations agree. -/
def Declaration.agree (d d' : Declaration) : Bool :=
  d.name = d'.name && d.type.agree eq d'.type

/-- The declarations agree one by one, and are as many. -/
def Declaration.agreeAll : List Declaration → List Declaration → Bool
  | [], [] => true
  | d :: ds, d' :: ds' => d.agree eq d' && Declaration.agreeAll ds ds'
  | _, _ => false

/-- The functions agree. -/
def Function.agree (f f' : Function) : Bool :=
  f.name = f'.name && Declaration.agreeAll eq f.parameters f'.parameters &&
    Declaration.agreeAll eq f.declarations f'.declarations && Stmt.agreeAll eq f.body f'.body

/-- The functions agree one by one, and are as many. -/
def Function.agreeAll : List Function → List Function → Bool
  | [], [] => true
  | f :: fs, f' :: fs' => f.agree eq f' && Function.agreeAll fs fs'
  | _, _ => false

/-- The programs agree. -/
def Program.agree (p p' : Program) : Bool :=
  Function.agreeAll eq p.functions p'.functions

/-- The programs are the same, their numbers compared by value. -/
def Program.same (p p' : Program) : Bool :=
  p.agree Number.same p'

/-! ### To agree is to be equal -/

section

set_option linter.unusedSectionVars false

variable {eq} (h : ∀ n n', eq n n' = true ↔ n = n')

include h

mutual

theorem Expr.agree_iff : ∀ e e' : Expr, e.agree eq e' = true ↔ e = e'
  | .arith o l r, e' => by
    cases e' <;> simp [Expr.agree, Expr.agree_iff l, Expr.agree_iff r, and_assoc]
  | .signed s e, e' => by cases e' <;> simp [Expr.agree, Expr.agree_iff e]
  | .number n, e' => by cases e' <;> simp [Expr.agree, h]
  | .var x, e' => by cases e' <;> simp [Expr.agree]
  | .entry a i, e' => by cases e' <;> simp [Expr.agree, Expr.agree_iff i]
  | .call f es, e' => by cases e' <;> simp [Expr.agree, Expr.agreeAll_iff es]
  | .compare o l r, e' => by
    cases e' <;> simp [Expr.agree, Expr.agree_iff l, Expr.agree_iff r, and_assoc]
  | .logical o l r, e' => by
    cases e' <;> simp [Expr.agree, Expr.agree_iff l, Expr.agree_iff r, and_assoc]
  | .not e, e' => by cases e' <;> simp [Expr.agree, Expr.agree_iff e]

theorem Expr.agreeAll_iff : ∀ es es' : List Expr, Expr.agreeAll eq es es' = true ↔ es = es'
  | [], es' => by cases es' <;> simp [Expr.agreeAll]
  | e :: es, es' => by
    cases es' <;> simp [Expr.agreeAll, Expr.agree_iff e, Expr.agreeAll_iff es]

end

mutual

theorem Stmt.agree_iff : ∀ s s' : Stmt, s.agree eq s' = true ↔ s = s'
  | .print t, s' => by cases s' <;> simp [Stmt.agree]
  | .assign l e, s' => by cases s' <;> simp [Stmt.agree, Expr.agree_iff h]
  | .update o l e, s' => by cases s' <;> simp [Stmt.agree, Expr.agree_iff h, and_assoc]
  | .ifThen c s, s' => by cases s' <;> simp [Stmt.agree, Expr.agree_iff h, Stmt.agree_iff s]
  | .ifThenElse c s t, s' => by
    cases s' <;> simp [Stmt.agree, Expr.agree_iff h, Stmt.agree_iff s, Stmt.agree_iff t, and_assoc]
  | .whileDo c s, s' => by cases s' <;> simp [Stmt.agree, Expr.agree_iff h, Stmt.agree_iff s]
  | .read l, s' => by cases s' <;> simp [Stmt.agree, Expr.agree_iff h]
  | .write e, s' => by cases s' <;> simp [Stmt.agree, Expr.agree_iff h]
  | .ret e, s' => by cases s' <;> simp [Stmt.agree, Expr.agree_iff h]
  | .leave, s' => by cases s' <;> simp [Stmt.agree]
  | .skip, s' => by cases s' <;> simp [Stmt.agree]
  | .block ss, s' => by cases s' <;> simp [Stmt.agree, Stmt.agreeAll_iff ss]

theorem Stmt.agreeAll_iff : ∀ ss ss' : List Stmt, Stmt.agreeAll eq ss ss' = true ↔ ss = ss'
  | [], ss' => by cases ss' <;> simp [Stmt.agreeAll]
  | s :: ss, ss' => by
    cases ss' <;> simp [Stmt.agreeAll, Stmt.agree_iff s, Stmt.agreeAll_iff ss]

end

theorem TypeName.agree_iff (t t' : TypeName) : t.agree eq t' = true ↔ t = t' := by
  obtain ⟨base, size⟩ := t
  obtain ⟨base', size'⟩ := t'
  cases size <;> cases size' <;> simp [TypeName.agree, Expr.agree_iff h]

theorem Declaration.agree_iff (d d' : Declaration) : d.agree eq d' = true ↔ d = d' := by
  obtain ⟨name, type⟩ := d
  obtain ⟨name', type'⟩ := d'
  simp [Declaration.agree, TypeName.agree_iff h]

theorem Declaration.agreeAll_iff :
    ∀ ds ds' : List Declaration, Declaration.agreeAll eq ds ds' = true ↔ ds = ds'
  | [], ds' => by cases ds' <;> simp [Declaration.agreeAll]
  | d :: ds, ds' => by
    cases ds' <;> simp [Declaration.agreeAll, Declaration.agree_iff h, Declaration.agreeAll_iff ds]

theorem Function.agree_iff (f f' : Function) : f.agree eq f' = true ↔ f = f' := by
  obtain ⟨name, parameters, declarations, body⟩ := f
  obtain ⟨name', parameters', declarations', body'⟩ := f'
  simp [Function.agree, Declaration.agreeAll_iff h, Stmt.agreeAll_iff h, and_assoc]

theorem Function.agreeAll_iff :
    ∀ fs fs' : List Function, Function.agreeAll eq fs fs' = true ↔ fs = fs'
  | [], fs' => by cases fs' <;> simp [Function.agreeAll]
  | f :: fs, fs' => by
    cases fs' <;> simp [Function.agreeAll, Function.agree_iff h, Function.agreeAll_iff fs]

/-- **With equal numbers, programs that agree are equal.** -/
theorem Program.agree_iff (p p' : Program) : p.agree eq p' = true ↔ p = p' := by
  obtain ⟨fs⟩ := p
  obtain ⟨fs'⟩ := p'
  simp [Program.agree, Function.agreeAll_iff h]

end

/-- The numbers are equal, floats as the same float. -/
def Number.equal (n n' : Number) : Bool :=
  n = n'

theorem Number.equal_iff (n n' : Number) : n.equal n' = true ↔ n = n' := by
  simp [Number.equal]

instance : DecidableEq Expr := fun e e' =>
  decidable_of_iff _ (Expr.agree_iff Number.equal_iff e e')

instance : DecidableEq Stmt := fun s s' =>
  decidable_of_iff _ (Stmt.agree_iff Number.equal_iff s s')

instance : DecidableEq Program := fun p p' =>
  decidable_of_iff _ (Program.agree_iff Number.equal_iff p p')

end SyntaxGraph
