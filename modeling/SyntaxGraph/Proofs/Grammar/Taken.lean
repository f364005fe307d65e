/-
# How many tokens a rule takes

A rule that answers has taken tokens, and how many it has taken at least can be read off
from its script: each step takes one or none, which shows in its answer, and each call takes
what its rule takes at least. Lists may be empty, and all other rules take a token
(`Script.takes_ofRule`).

For this no step may take the end of the input, which a parser can take again and again
without getting any further.

Key definitions: `Rule.least`, `Step.isProper`, `Step.taken`, `Script.Takes`.
Key theorems: `Script.Takes.bind`, `Script.takes_ofRule`.
-/
import SyntaxGraph.Proofs.Grammar.Calls

namespace SyntaxGraph
namespace Grammar

/-- How many tokens a rule takes at least. -/
def Rule.least : Rule → Nat
  | parameters | declarations | arguments => 0
  | _ => 1

namespace Step

variable {α : Type}

/-- The step wants no end of the input. -/
def isProper : Step α → Bool
  | peek test => !test .eof
  | choose f => (f .eof).isNone
  | accept kind | expect kind _ => kind ≠ .eof
  | _ => true

/-- How many tokens the step has taken when it answers. -/
def taken : {α : Type} → Step α → α → Nat
  | _, choose _, o | _, name, o | _, literal, o => if o.isSome then 1 else 0
  | _, accept _, b => if b then 1 else 0
  | _, expect _ _, _ => 1
  | _, _, _ => 0

/-- The step never answers. -/
def isRefusal : Step α → Bool
  | refuse _ => true
  | _ => false

end Step

namespace Script

variable {α β ω : Type}

/-- A script whose steps are proper takes at least `k a` tokens if it answers `a`. -/
def Takes : Script α → (α → Nat) → Prop
  | done a, k => k a = 0
  | step s next, k =>
    s.isRefusal = true ∨ s.isProper = true ∧ ∀ b, (next b).Takes fun a => k a - s.taken b
  | call c next, k => ∀ b, (next b).Takes fun a => k a - c.target.least

theorem takes_pure {k : α → Nat} {a : α} (h : k a = 0) : (pure a : Script α).Takes k :=
  h

theorem takes_refuse (x : Expectation) (k : α → Nat) :
    (monadLift (Step.refuse x : Step α) : Script α).Takes k :=
  .inl rfl

theorem Takes.mono {p : Script α} {k k' : α → Nat} (hp : p.Takes k) (h : ∀ a, k' a ≤ k a) :
    p.Takes k' := by
  induction p generalizing k k' with
  | done a => exact Nat.eq_zero_of_le_zero (hp ▸ h a)
  | step s next ih =>
    exact hp.imp_right fun ⟨hs, hnext⟩ =>
      ⟨hs, fun b => ih b (hnext b) fun a => Nat.sub_le_sub_right (h a) _⟩
  | call c next ih => exact fun b => ih b (hp b) fun a => Nat.sub_le_sub_right (h a) _

/-- What the first part has taken need not be taken by the second. -/
theorem Takes.bind {p : Script α} {f : α → Script β} {k : α → Nat} {m : β → Nat} (hp : p.Takes k)
    (hf : ∀ a, (f a).Takes fun b => m b - k a) : (p >>= f).Takes m := by
  have hsub : ∀ x y z : Nat, x - z - (y - z) ≤ x - y := by omega
  induction p generalizing k m with
  | done a => exact (hf a).mono fun b => Nat.le_of_eq (congrArg (m b - ·) hp).symm
  | step s next ih =>
    exact hp.imp_right fun ⟨hs, hnext⟩ =>
      ⟨hs, fun b => ih b (hnext b) fun a => (hf a).mono fun c => hsub (m c) (k a) _⟩
  | call c next ih => exact fun b => ih b (hp b) fun a => (hf a).mono fun d => hsub (m d) (k a) _

theorem Takes.seq {p : Script α} {f : α → Script β} {n : Nat} (hp : p.Takes fun _ => n)
    (hf : ∀ a, (f a).Takes fun _ => 0) : (p >>= f).Takes fun _ => n :=
  hp.bind fun a => (hf a).mono fun _ => Nat.le_of_eq (Nat.sub_self n)

theorem Takes.step {s : Step β} {f : β → Script α} {m : α → Nat} (hs : s.isProper = true)
    (hf : ∀ b, (f b).Takes fun a => m a - s.taken b) :
    ((monadLift s : Script β) >>= f).Takes m :=
  .inr ⟨hs, hf⟩

theorem takes_step {s : Step α} (hs : s.isProper = true) : (monadLift s : Script α).Takes s.taken :=
  .inr ⟨hs, fun _ => Nat.sub_self _⟩

theorem Takes.test {s : Step Bool} {f : Bool → Script α} {m : α → Nat} (hs : s.isProper = true)
    (hyes : (f true).Takes fun a => m a - s.taken true)
    (hno : (f false).Takes fun a => m a - s.taken false) :
    ((monadLift s : Script Bool) >>= f).Takes m :=
  .step hs (Bool.rec hno hyes)

theorem Takes.option {p : Script (Option β)} {f : Option β → Script α} {k : Option β → Nat}
    {m : α → Nat} (hp : p.Takes k) (hsome : ∀ b, (f (some b)).Takes fun a => m a - k (some b))
    (hnone : (f none).Takes fun a => m a - k none) : (p >>= f).Takes m :=
  hp.bind (Option.rec hnone hsome)

theorem Takes.rule {r : Rule} {f : r.Result → Script α} {m : α → Nat}
    (hf : ∀ a, (f a).Takes fun b => m b - r.least) : (Script.rule r >>= f).Takes m :=
  hf

theorem takes_rule (r : Rule) : (rule r).Takes fun _ => r.least :=
  fun _ => Nat.sub_self _

theorem takes_nested (r : Rule) : (nested r).Takes fun _ => r.least :=
  fun _ => Nat.sub_self _

theorem Takes.collect {once : Script (Option α)} {k : Option α → Nat} (h : once.Takes k) :
    (collect once).Takes fun _ => 0 := by
  refine .step rfl fun rounds => ?_
  have hnone : once.Takes fun _ => 0 := h.mono fun _ => Nat.zero_le _
  induction rounds with
  | nil => exact takes_pure rfl
  | cons t others ih =>
    exact hnone.option (fun a => ih.seq fun as => takes_pure rfl) (takes_pure rfl)

/-- The step from one item of a list to the next. -/
def nextItem (separator : Token.Kind) (item : Script α) : Script (Option α) := do
  if ← Step.accept separator then return some (← item) else return none

/-- The step from one operand of a chain to the next. -/
def nextOperand (operator : Script (Option ω)) (operand : Script α) : Script (Option (ω × α)) := do
  match ← operator with
  | some op => return some (op, ← operand)
  | none => return none

/-- The number of tokens that a round takes at least: one if it yields something. -/
def perRound (o : Option α) : Nat :=
  if o.isSome then 1 else 0

theorem takes_nextItem {separator : Token.Kind} {item : Script α} {n : Nat}
    (hs : (Step.accept separator).isProper = true) (h : item.Takes fun _ => n) :
    (nextItem separator item).Takes perRound := by
  refine .test hs ?_ (takes_pure rfl)
  exact (h.mono fun _ => Nat.zero_le _).bind fun a => takes_pure rfl

theorem takes_nextOperand {operator : Script (Option ω)} {operand : Script α} {n : Nat}
    (hop : operator.Takes perRound) (h : operand.Takes fun _ => n) :
    (nextOperand operator operand).Takes perRound := by
  refine hop.option (fun op => ?_) (takes_pure rfl)
  exact (h.mono fun _ => Nat.zero_le _).bind fun a => takes_pure rfl

theorem takes_separated {separator : Token.Kind} {item : Script α} {n : Nat}
    (hs : (Step.accept separator).isProper = true) (h : item.Takes fun _ => n) :
    (separated separator item).Takes fun _ => n :=
  h.seq fun _ => (takes_nextItem hs h).collect.seq fun _ => takes_pure rfl

theorem takes_chained {join : ω → α → α → α} {operator : Script (Option ω)} {operand : Script α}
    {n : Nat} (hop : operator.Takes perRound) (h : operand.Takes fun _ => n) :
    (chained join operator operand).Takes fun _ => n :=
  h.seq fun _ => (takes_nextOperand hop h).collect.seq fun _ => takes_pure rfl

theorem takes_connective {kind : Token.Kind} (hkind : (Step.accept kind).isProper = true)
    (op : Connective) : (connective kind op).Takes perRound :=
  .test hkind (takes_pure rfl) (takes_pure rfl)

theorem takes_declaration (name colon : Place) : (declaration name colon).Takes fun _ => 1 :=
  .step rfl fun _ => .step rfl fun _ => .rule fun _ => takes_pure rfl

theorem takes_nextDeclaration : nextDeclaration.Takes perRound :=
  .test rfl ((takes_declaration _ _).bind fun _ => takes_pure rfl) (takes_pure rfl)

theorem takes_named (name : String) : (named name).Takes fun _ => 0 := by
  refine .test rfl ?_ (.test rfl ?_ (takes_pure rfl))
  · exact .rule fun _ => .step rfl fun _ => takes_pure rfl
  · exact .rule fun _ => .step rfl fun _ => takes_pure rfl

/-- The rounds of a program: functions to the end of the stream. -/
def nextFunction : Script (Option Function) := do
  if ← Step.atEnd then return none else return some (← rule .function)

theorem takes_nextFunction : nextFunction.Takes perRound :=
  .test rfl (takes_pure rfl) (.rule fun _ => takes_pure rfl)

/-- The rounds of local declarations: a semicolon that is the last ends them. -/
def furtherDeclaration : Script (Option Declaration) := do
  if ← Step.accept .semicolon then nextDeclaration else return none

theorem takes_furtherDeclaration : furtherDeclaration.Takes perRound :=
  .test rfl (takes_nextDeclaration.mono fun _ => Nat.sub_le _ _) (takes_pure rfl)

/-- A rule takes a token before it answers, unless it is a list that may be empty. -/
theorem takes_ofRule (r : Rule) : (ofRule r).Takes fun _ => r.least := by
  cases r with
  | program =>
    refine .step rfl fun _ => .rule fun first => ?_
    exact takes_nextFunction.collect.seq fun _ => takes_pure rfl
  | function =>
    refine .step rfl fun _ => .step rfl fun _ => .step rfl fun _ => ?_
    refine .rule fun _ => .step rfl fun _ => .rule fun _ => ?_
    refine .step rfl fun _ => .rule fun _ => ?_
    exact .test rfl (takes_pure rfl) (takes_refuse _ _)
  | parameters =>
    refine .test rfl (takes_pure rfl) ?_
    exact (takes_separated rfl (takes_declaration _ _)).mono fun _ => Nat.zero_le _
  | declarations =>
    refine .option takes_nextDeclaration (fun _ => ?_) (takes_pure rfl)
    exact takes_furtherDeclaration.collect.seq fun _ => takes_pure rfl
  | typeName =>
    refine .option (takes_step rfl) (fun _ => .test rfl ?_ (takes_pure rfl))
      (takes_refuse _ _)
    exact .rule fun _ => .step rfl fun _ => takes_pure rfl
  | statements => exact takes_separated rfl (takes_rule _)
  | statement => exact takes_nested _
  | statementWithin =>
    refine .test rfl (takes_rule _) ?_
    refine .test rfl (takes_rule _) ?_
    refine .test rfl (takes_rule _) ?_
    refine .test rfl (takes_rule _) ?_
    refine .test rfl (takes_rule _) ?_
    refine .test rfl (.rule fun _ => takes_pure rfl) ?_
    refine .test rfl (takes_pure rfl) (.test rfl (takes_pure rfl) ?_)
    refine .test rfl (takes_rule _) ?_
    exact .test rfl (takes_rule _) (takes_refuse _ _)
  | printStatement =>
    exact .step rfl fun _ => .step rfl fun _ => .step rfl fun _ =>
      takes_pure rfl
  | ifStatement =>
    refine .rule fun _ => .step rfl fun _ => .rule fun _ => ?_
    exact .test rfl (.rule fun _ => takes_pure rfl) (takes_pure rfl)
  | whileStatement =>
    exact .rule fun _ => .step rfl fun _ => .rule fun _ => takes_pure rfl
  | readStatement | writeStatement =>
    exact .step rfl fun _ => .rule fun _ => .step rfl fun _ => takes_pure rfl
  | blockStatement =>
    exact .rule fun _ => .test rfl (takes_pure rfl) (takes_refuse _ _)
  | assignment =>
    refine .rule fun _ => .option (takes_step rfl) (fun op => ?_) (takes_refuse _ _)
    cases op with
    | none => exact .rule fun _ => takes_pure rfl
    | some op => exact .rule fun _ => takes_pure rfl
  | location =>
    refine .step rfl fun _ => .test rfl ?_ (takes_pure rfl)
    exact .rule fun _ => .step rfl fun _ => takes_pure rfl
  | condition => exact takes_rule _
  | disjunction | conjunction =>
    exact takes_chained (takes_connective rfl _) (takes_rule _)
  | negation =>
    refine .test rfl ?_ (takes_rule _)
    exact (takes_nested _).bind fun _ => takes_pure rfl
  | comparison =>
    refine .rule fun _ => .option (takes_step rfl) (fun op => ?_) (takes_pure rfl)
    exact .rule fun _ => .test rfl (takes_refuse _ _) (takes_pure rfl)
  | expression | product => exact takes_chained (takes_step rfl) (takes_rule _)
  | signed =>
    refine .option (takes_step rfl) (fun sign => ?_) (takes_rule _)
    exact (takes_nested _).bind fun _ => takes_pure rfl
  | primary => exact takes_nested _
  | primaryWithin =>
    refine .option (takes_step rfl) (fun _ => takes_pure rfl) ?_
    refine .option (takes_step rfl) (fun t => takes_named _) ?_
    refine .test rfl ?_ (takes_refuse _ _)
    exact .rule fun _ => .step rfl fun _ => takes_pure rfl
  | arguments =>
    refine .test rfl (takes_pure rfl) ?_
    exact (takes_separated rfl (takes_rule _)).mono fun _ => Nat.zero_le _

end Script

end Grammar
end SyntaxGraph
