/-
# Who calls whom

The calls that a rule makes are the same whatever it reads: each script keeps
to a list (`Script.uses_ofRule`). A rule that is called directly is below its
caller in the order of precedence, so no rule comes back to itself by direct
calls, and an induction on the levels that are left and on the rank reaches
every call.

Key definitions: `Rule.calls`, `Rule.rank`, `Call.Fits`, `Script.Uses`.
Key theorems: `Rule.rank_lt`, `Script.uses_ofRule`, `Rule.not_transGen_calls`,
`Call.induction`.
-/
import Mathlib.Logic.Relation
import SyntaxGraph.Proofs.Grammar.Script

namespace SyntaxGraph
namespace Grammar

/-- The calls that the script of a rule may make. -/
def Rule.calls : Rule → List Call
  | program => [.rule .function]
  | function => [.rule .parameters, .rule .declarations, .rule .statements]
  | parameters | declarations => [.rule .typeName]
  | typeName | writeStatement => [.rule .expression]
  | statements => [.rule .statement]
  | statement => [.nested .statementWithin]
  | statementWithin =>
    [.rule .printStatement, .rule .ifStatement, .rule .whileStatement, .rule .readStatement,
      .rule .writeStatement, .rule .expression, .rule .blockStatement, .rule .assignment]
  | printStatement => []
  | ifStatement | whileStatement => [.rule .condition, .rule .statement]
  | readStatement => [.rule .location]
  | blockStatement => [.rule .statements]
  | assignment => [.rule .location, .rule .expression]
  | location | arguments => [.rule .expression]
  | condition => [.rule .disjunction]
  | disjunction => [.rule .conjunction]
  | conjunction => [.rule .negation]
  | negation => [.nested .disjunction, .rule .comparison]
  | comparison => [.rule .expression]
  | expression => [.rule .product]
  | product => [.rule .signed]
  | signed => [.nested .signed, .rule .primary]
  | primary => [.nested .primaryWithin]
  | primaryWithin => [.rule .arguments, .rule .expression, .rule .condition]

/-- How many direct calls can follow one another from a rule on. -/
def Rule.rank : Rule → Nat
  | primary | statement | printStatement => 0
  | signed | statements => 1
  | product | blockStatement => 2
  | expression => 3
  | comparison | arguments | location | typeName | writeStatement => 4
  | negation | assignment | readStatement | parameters | declarations => 5
  | conjunction | function => 6
  | disjunction | program => 7
  | condition => 8
  | primaryWithin | ifStatement | whileStatement => 9
  | statementWithin => 10

/-- The rule is read outside of statements and expressions, where no level is open. -/
def Rule.isOuter : Rule → Bool
  | program | function | parameters | declarations | typeName => true
  | _ => false

theorem Rule.rank_le (r : Rule) : r.rank ≤ 10 := by
  cases r <;> decide

/-- A rule that is called directly ranks below its caller. -/
theorem Rule.rank_lt {r r' : Rule} (h : .rule r' ∈ r.calls) : r'.rank < r.rank := by
  have hall : ∀ c ∈ r.calls, c.isNested = false → c.target.rank < r.rank := by
    cases r <;> decide
  exact hall _ h rfl

/-- Outer rules are called by outer rules only, and directly. -/
theorem Rule.isOuter_of_mem_calls {r : Rule} {c : Call} (h : c ∈ r.calls)
    (hc : c.target.isOuter = true) : c.isNested = false ∧ r.isOuter = true := by
  have hall : ∀ c ∈ r.calls, c.target.isOuter = true → c.isNested = false ∧ r.isOuter = true := by
    cases r <;> decide
  exact hall c h hc

/-- The call is one that the grammar makes with `n` of `limit` levels left: the rules outside
of statements and expressions are called with all levels left. -/
def Call.Fits (limit n : Nat) (c : Call) : Prop :=
  c.target.isOuter = true → c.isNested = false ∧ n = limit

theorem Call.Fits.of_mem_calls {limit n : Nat} {r : Rule} (h : (Call.rule r).Fits limit n) {c : Call}
    (hc : c ∈ r.calls) : c.Fits limit n := by
  intro houter
  obtain ⟨hdirect, hcaller⟩ := Rule.isOuter_of_mem_calls hc houter
  exact ⟨hdirect, (h hcaller).2⟩

/-- No outer rule is called one level down. -/
theorem Call.Fits.opened {limit limit' n n' : Nat} {r : Rule} (h : (Call.nested r).Fits limit n) :
    (Call.rule r).Fits limit' n' :=
  fun houter => absurd (h houter).1 Bool.noConfusion

/-- **No rule comes back to itself by direct calls.** -/
theorem Rule.not_transGen_calls (r : Rule) :
    ¬ Relation.TransGen (fun a b : Rule => .rule b ∈ a.calls) r r := by
  intro h
  have hlt : ∀ a b : Rule, Relation.TransGen (fun a b : Rule => .rule b ∈ a.calls) a b →
      b.rank < a.rank := by
    intro a b hab
    induction hab with
    | single hb => exact Rule.rank_lt hb
    | tail _ hc ih => exact Nat.lt_trans (Rule.rank_lt hc) ih
  exact Nat.lt_irrefl _ (hlt r r h)

/-- A property of all calls, with any number of levels left: a rule has it if its
calls have it, and a call that opens a level if its rule has it one level down. -/
theorem Call.induction {P : Nat → Call → Prop}
    (rule : ∀ n r, (∀ c ∈ r.calls, P n c) → P n (.rule r))
    (refused : ∀ r, P 0 (.nested r))
    (opened : ∀ n r, P n (.rule r) → P (n + 1) (.nested r)) (n : Nat) (c : Call) : P n c := by
  -- with the nested calls at hand, the rank goes down along direct calls
  have direct : ∀ n, (∀ r, P n (.nested r)) → ∀ r, P n (.rule r) := by
    intro n hnested r
    induction hk : r.rank using Nat.strongRecOn generalizing r with
    | _ k ih =>
      refine rule n r fun c hc => ?_
      cases c with
      | rule r' => exact ih r'.rank (hk ▸ Rule.rank_lt hc) r' rfl
      | nested r' => exact hnested r'
  have nested : ∀ r, P n (.nested r) := by
    induction n with
    | zero => exact refused
    | succ n ih => exact fun r => opened n r (direct n ih r)
  cases c with
  | rule r => exact direct n nested r
  | nested r => exact nested r

/-! ### The calls of a script -/

namespace Script

variable {α β : Type} {P : Call → Prop}

/-- All calls in the script, whatever the answers are, satisfy `P`. -/
def Uses (P : Call → Prop) : Script α → Prop
  | done _ => True
  | step _ next => ∀ b, (next b).Uses P
  | call c next => P c ∧ ∀ b, (next b).Uses P

@[simp] theorem uses_pure (a : α) : (pure a : Script α).Uses P :=
  trivial

@[simp] theorem uses_step (s : Step α) : (monadLift s : Script α).Uses P :=
  fun _ => trivial

@[simp] theorem uses_rule (r : Rule) : (rule r).Uses P ↔ P (.rule r) :=
  ⟨And.left, fun h => ⟨h, fun _ => trivial⟩⟩

@[simp] theorem uses_nested (r : Rule) : (nested r).Uses P ↔ P (.nested r) :=
  ⟨And.left, fun h => ⟨h, fun _ => trivial⟩⟩

theorem Uses.mono {Q : Call → Prop} {p : Script α} (hp : p.Uses P) (h : ∀ c, P c → Q c) :
    p.Uses Q := by
  induction p with
  | done a => trivial
  | step s next ih => exact fun b => ih b (hp b)
  | call c next ih => exact ⟨h c hp.1, fun b => ih b (hp.2 b)⟩

theorem Uses.bind {p : Script α} {f : α → Script β} (hp : p.Uses P) (hf : ∀ a, (f a).Uses P) :
    (p >>= f).Uses P := by
  induction p with
  | done a => exact hf a
  | step s next ih => exact fun b => ih b (hp b)
  | call c next ih => exact ⟨hp.1, fun b => ih b (hp.2 b)⟩

theorem Uses.test {s : Step Bool} {f : Bool → Script α} (hyes : (f true).Uses P)
    (hno : (f false).Uses P) : ((monadLift s : Script Bool) >>= f).Uses P :=
  Bool.rec hno hyes

theorem Uses.option {p : Script (Option β)} {f : Option β → Script α} (hp : p.Uses P)
    (hsome : ∀ b, (f (some b)).Uses P) (hnone : (f none).Uses P) : (p >>= f).Uses P :=
  hp.bind fun o => Option.rec hnone hsome o

theorem Uses.step {s : Step β} {f : β → Script α} (hf : ∀ b, (f b).Uses P) :
    ((monadLift s : Script β) >>= f).Uses P :=
  hf

theorem Uses.collect {once : Script (Option α)} (h : once.Uses P) : (collect once).Uses P := by
  refine Uses.step fun rounds => ?_
  induction rounds with
  | nil => exact uses_pure []
  | cons t others ih =>
    exact h.option (fun a => ih.bind fun as => uses_pure (a :: as)) (uses_pure [])

theorem Uses.separated {separator : Token.Kind} {item : Script α} (h : item.Uses P) :
    (separated separator item).Uses P := by
  refine h.bind fun first => Uses.bind (Uses.collect (Uses.test ?_ (uses_pure none)))
    fun others => uses_pure (first :: others)
  exact h.bind fun a => uses_pure (some a)

theorem Uses.chained {ω : Type} {join : ω → α → α → α} {operator : Script (Option ω)}
    {operand : Script α} (hop : operator.Uses P) (h : operand.Uses P) :
    (chained join operator operand).Uses P := by
  refine h.bind fun first => Uses.bind (Uses.collect (hop.option (fun op => ?_) (uses_pure none)))
    fun others => uses_pure _
  exact h.bind fun a => uses_pure (some (op, a))

theorem uses_connective (kind : Token.Kind) (op : Connective) : (connective kind op).Uses P :=
  Uses.test (uses_pure _) (uses_pure _)

theorem Uses.rule {r : Rule} {f : r.Result → Script α} (hr : P (.rule r)) (hf : ∀ a, (f a).Uses P) :
    (Script.rule r >>= f).Uses P :=
  Uses.bind ((uses_rule r).mpr hr) hf

theorem uses_declaration (name colon : Place) (h : P (.rule .typeName)) :
    (declaration name colon).Uses P :=
  Uses.step fun _ => Uses.step fun _ => Uses.bind ((uses_rule _).mpr h) fun _ => uses_pure _

theorem uses_nextDeclaration (h : P (.rule .typeName)) : nextDeclaration.Uses P :=
  Uses.test (Uses.bind (uses_declaration _ _ h) fun _ => uses_pure _) (uses_pure _)

theorem uses_named (name : String) (hargs : P (.rule .arguments)) (hindex : P (.rule .expression)) :
    (named name).Uses P := by
  refine Uses.test ?_ (Uses.test ?_ (uses_pure _))
  · exact Uses.bind ((uses_rule _).mpr hargs) fun _ => Uses.step fun _ => uses_pure _
  · exact Uses.bind ((uses_rule _).mpr hindex) fun _ => Uses.step fun _ => uses_pure _

/-- The script of a rule makes no calls but those in the list of the rule. -/
theorem uses_ofRule (r : Rule) : (ofRule r).Uses (· ∈ r.calls) := by
  cases r with
  | program =>
    refine Uses.step fun _ => Uses.rule (by decide) fun first => ?_
    refine Uses.bind (Uses.collect ?_) fun _ => uses_pure _
    exact Uses.test (uses_pure _) (Uses.rule (by decide) fun _ => uses_pure _)
  | function =>
    refine Uses.step fun _ => Uses.step fun _ => Uses.step fun _ => ?_
    refine Uses.rule (by decide) fun _ => Uses.step fun _ => Uses.rule (by decide) fun _ => ?_
    refine Uses.step fun _ => Uses.rule (by decide) fun _ => ?_
    exact Uses.test (uses_pure _) (uses_step _)
  | parameters =>
    exact Uses.test (uses_pure _) (Uses.separated (uses_declaration _ _ (by decide)))
  | declarations =>
    refine Uses.option (uses_nextDeclaration (by decide)) (fun _ => ?_) (uses_pure _)
    exact Uses.bind (Uses.collect (Uses.test (uses_nextDeclaration (by decide)) (uses_pure _)))
      fun _ => uses_pure _
  | typeName =>
    refine Uses.option (uses_step _) (fun _ => Uses.test ?_ (uses_pure _)) (uses_step _)
    exact Uses.rule (by decide) fun _ => Uses.step fun _ => uses_pure _
  | statements => exact Uses.separated ((uses_rule _).mpr (by decide))
  | statement => exact (uses_nested _).mpr (by decide)
  | statementWithin =>
    refine Uses.test ((uses_rule _).mpr (by decide)) ?_
    refine Uses.test ((uses_rule _).mpr (by decide)) ?_
    refine Uses.test ((uses_rule _).mpr (by decide)) ?_
    refine Uses.test ((uses_rule _).mpr (by decide)) ?_
    refine Uses.test ((uses_rule _).mpr (by decide)) ?_
    refine Uses.test (Uses.rule (by decide) fun _ => uses_pure _) ?_
    refine Uses.test (uses_pure _) (Uses.test (uses_pure _) ?_)
    refine Uses.test ((uses_rule _).mpr (by decide)) ?_
    exact Uses.test ((uses_rule _).mpr (by decide)) (uses_step _)
  | printStatement =>
    exact Uses.step fun _ => Uses.step fun _ => Uses.step fun _ => uses_pure _
  | ifStatement =>
    refine Uses.rule (by decide) fun _ => Uses.step fun _ => Uses.rule (by decide) fun _ => ?_
    exact Uses.test (Uses.rule (by decide) fun _ => uses_pure _) (uses_pure _)
  | whileStatement =>
    refine Uses.rule (by decide) fun _ => Uses.step fun _ => ?_
    exact Uses.rule (by decide) fun _ => uses_pure _
  | readStatement | writeStatement =>
    refine Uses.step fun _ => Uses.rule (by decide) fun _ => ?_
    exact Uses.step fun _ => uses_pure _
  | blockStatement =>
    exact Uses.rule (by decide) fun _ => Uses.test (uses_pure _) (uses_step _)
  | assignment =>
    refine Uses.rule (by decide) fun _ => Uses.option (uses_step _) (fun op => ?_) (uses_step _)
    cases op with
    | none => exact Uses.rule (by decide) fun _ => uses_pure _
    | some op => exact Uses.rule (by decide) fun _ => uses_pure _
  | location =>
    refine Uses.step fun _ => Uses.test ?_ (uses_pure _)
    exact Uses.rule (by decide) fun _ => Uses.step fun _ => uses_pure _
  | condition => exact (uses_rule _).mpr (by decide)
  | disjunction | conjunction =>
    exact Uses.chained (uses_connective _ _) ((uses_rule _).mpr (by decide))
  | negation =>
    refine Uses.test ?_ ((uses_rule _).mpr (by decide))
    exact Uses.bind ((uses_nested _).mpr (by decide)) fun _ => uses_pure _
  | comparison =>
    refine Uses.rule (by decide) fun _ => Uses.option (uses_step _) (fun op => ?_) (uses_pure _)
    exact Uses.rule (by decide) fun _ => Uses.test (uses_step _) (uses_pure _)
  | expression | product =>
    exact Uses.chained (uses_step _) ((uses_rule _).mpr (by decide))
  | signed =>
    refine Uses.option (uses_step _) (fun sign => ?_) ((uses_rule _).mpr (by decide))
    exact Uses.bind ((uses_nested _).mpr (by decide)) fun _ => uses_pure _
  | primary => exact (uses_nested _).mpr (by decide)
  | primaryWithin =>
    refine Uses.option (uses_step _) (fun _ => uses_pure _) ?_
    refine Uses.option (uses_step _) (fun t => uses_named _ (by decide) (by decide)) ?_
    refine Uses.test ?_ (uses_step _)
    exact Uses.rule (by decide) fun _ => Uses.step fun _ => uses_pure _
  | arguments =>
    exact Uses.test (uses_pure _) (Uses.separated ((uses_rule _).mpr (by decide)))

end Script

end Grammar
end SyntaxGraph
