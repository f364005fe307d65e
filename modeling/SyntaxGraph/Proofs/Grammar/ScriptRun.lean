/-
# What the scripts read

A script is run by carrying out its steps on a stream, given what the calls
read. With the parts of the grammar for the calls, the script of each rule reads
what its part of the grammar reads.

Key definitions: `Script.run`, `Rule.parser`, `Call.parser`.
Key theorems: `Script.run_bind`, `Script.run_ofRule`.
-/
import SyntaxGraph.Proofs.Grammar.Calls

namespace SyntaxGraph
namespace Grammar

/-! ### Running a script -/

namespace Script

variable {α β : Type}

/-- What a script reads, if a call `c` reads what `call c` does. -/
def run (call : (c : Call) → Parser c.target.Result) : Script α → Parser α
  | done a => pure a
  | step s next => s.run >>= fun b => (next b).run call
  | .call c next => call c >>= fun b => (next b).run call

variable {call : (c : Call) → Parser c.target.Result}

@[simp] theorem run_pure (a : α) : (pure a : Script α).run call = pure a := rfl

@[simp] theorem run_bind (p : Script α) (f : α → Script β) :
    (p >>= f).run call = p.run call >>= fun a => (f a).run call := by
  induction p with
  | done a => exact (pure_bind a fun a => (f a).run call).symm
  | step s next ih =>
    calc (step s next >>= f).run call = s.run >>= fun b => (next b >>= f).run call := rfl
      _ = s.run >>= fun b => (next b).run call >>= fun a => (f a).run call := by simp only [ih]
      _ = (step s next).run call >>= fun a => (f a).run call := (bind_assoc _ _ _).symm
  | call c next ih =>
    calc (Script.call c next >>= f).run call = call c >>= fun b => (next b >>= f).run call := rfl
      _ = call c >>= fun b => (next b).run call >>= fun a => (f a).run call := by simp only [ih]
      _ = (Script.call c next).run call >>= fun a => (f a).run call := (bind_assoc _ _ _).symm

@[simp] theorem run_step (s : Step α) : (monadLift s : Script α).run call = s.run :=
  bind_pure s.run

@[simp] theorem run_rule (r : Rule) : (rule r).run call = call (.rule r) :=
  bind_pure (call (.rule r))

@[simp] theorem run_nested (r : Rule) : (nested r).run call = call (.nested r) :=
  bind_pure (call (.nested r))

@[simp] theorem run_ite (b : Bool) (p q : Script α) :
    (if b = true then p else q).run call = if b = true then p.run call else q.run call := by
  cases b <;> rfl

theorem run_collectWithin (once : Script (Option α)) (rounds : List Token) :
    (collectWithin once rounds).run call = Grammar.collectWithin (once.run call) rounds := by
  induction rounds with
  | nil => rfl
  | cons t others ih =>
    rw [collectWithin, Grammar.collectWithin, run_bind]
    refine bind_congr fun o => ?_
    cases o with
    | none => rfl
    | some a =>
      show (collectWithin once others >>= fun as => pure (a :: as)).run call = _
      rw [run_bind, ih]
      rfl

@[simp] theorem run_collect (once : Script (Option α)) :
    (collect once).run call = Grammar.collect (once.run call) := by
  funext s
  show (collectWithin once s.tokens).run call s = Grammar.collectWithin (once.run call) s.tokens s
  rw [run_collectWithin]

@[simp] theorem run_separated (separator : Token.Kind) (item : Script α) :
    (separated separator item).run call = Grammar.separated separator (item.run call) := by
  simp only [separated, Grammar.separated, run_bind, run_collect, run_step, run_ite, run_pure,
    Step.run]

@[simp] theorem run_chained {ω : Type} (join : ω → α → α → α) (operator : Script (Option ω))
    (operand : Script α) : (chained join operator operand).run call =
      Grammar.chained join (operator.run call) (operand.run call) := by
  rw [chained, Grammar.chained, run_bind]
  refine bind_congr fun first => ?_
  rw [run_bind, run_collect, run_bind]
  refine congrArg (fun round => Grammar.collect round >>= _) (bind_congr fun o => ?_)
  cases o with
  | none => rfl
  | some op => exact run_bind operand _

@[simp] theorem run_connective (kind : Token.Kind) (op : Connective) :
    (connective kind op).run call = Grammar.connective kind op := by
  simp only [connective, Grammar.connective, run_bind, run_step, run_ite, run_pure, Step.run]

end Script

/-! ### The parts of the grammar -/

section

variable (limit n : Nat)

/-- The part of the grammar that a rule stands for, with `n` levels left. -/
def Rule.parser : (r : Rule) → Parser r.Result
  | program => Grammar.program limit
  | function => Grammar.function limit
  | parameters => Grammar.parameters limit
  | declarations => Grammar.declarations limit
  | typeName => Grammar.typeName limit
  | statements => separated .semicolon (Grammar.statement limit n)
  | statement => Grammar.statement limit n
  | statementWithin => Grammar.statementWithin limit (level limit n) (Grammar.statement limit n)
  | printStatement => Grammar.printStatement
  | ifStatement => Grammar.ifStatement limit (level limit n) (Grammar.statement limit n)
  | whileStatement => Grammar.whileStatement limit (level limit n) (Grammar.statement limit n)
  | readStatement => Grammar.readStatement limit (level limit n)
  | writeStatement => Grammar.writeStatement limit (level limit n)
  | blockStatement => Grammar.blockStatement (Grammar.statement limit n)
  | assignment => Grammar.assignment limit (level limit n)
  | location => Grammar.location limit (level limit n)
  | condition | disjunction => Grammar.condition limit (level limit n)
  | conjunction => Grammar.conjunction limit (level limit n)
  | negation => Grammar.negation limit (level limit n)
  | comparison => Grammar.comparison limit (level limit n)
  | expression => Grammar.expression limit (level limit n)
  | product => Grammar.product limit (level limit n)
  | signed => Grammar.signed limit (level limit n)
  | primary => Grammar.primary limit (level limit n)
  | primaryWithin => Grammar.primaryWithin (levelAt limit n)
  | arguments => Grammar.arguments (levelAt limit n)
where
  /-- The grammar of expressions with `n` levels left below. -/
  levelAt (limit n : Nat) : Level :=
    let deeper := level limit n
    ⟨Grammar.condition limit deeper, Grammar.expression limit deeper, Grammar.signed limit deeper⟩

/-- What a call reads, with `n` levels left. -/
def Call.parser : Nat → (c : Call) → Parser c.target.Result
  | n, rule r => r.parser limit n
  | 0, nested _ => unexpected (.nesting limit)
  | n + 1, nested r => r.parser limit n

end

theorem Call.parser_rule (limit n : Nat) (r : Rule) :
    Call.parser limit n (.rule r) = r.parser limit n := by
  cases n <;> rfl

/-- What a call that opens a level reads, for a rule of the grammar of expressions. -/
theorem Call.parser_nested {limit : Nat} {r : Rule} {part : Level → Parser r.Result}
    (h : ∀ k, r.parser limit k = part (Rule.parser.levelAt limit k)) (n : Nat) :
    Call.parser limit n (.nested r) = Grammar.nested limit (level limit n) part := by
  cases n with
  | zero => rfl
  | succ k => exact h k

namespace Script

variable {limit n : Nat}

theorem run_declaration (name colon : Place) :
    (declaration name colon).run (Call.parser limit n) = Grammar.declaration limit name colon := by
  simp only [declaration, Grammar.declaration, run_bind, run_step, run_rule .typeName, run_pure,
    Step.run, Call.parser_rule, Rule.parser]

theorem run_nextDeclaration :
    nextDeclaration.run (Call.parser limit n) = Grammar.nextDeclaration limit := by
  simp only [nextDeclaration, Grammar.nextDeclaration, run_bind, run_step, run_ite, run_pure,
    run_declaration, Step.run]

theorem run_named (name : String) :
    (named name).run (Call.parser limit n) = Grammar.named (Rule.parser.levelAt limit n) name := by
  simp only [named, Grammar.named, run_bind, run_step, run_rule .arguments, run_rule .expression,
    run_ite, run_pure, Step.run, Call.parser_rule, Rule.parser, Rule.parser.levelAt]

/-- The script of a rule reads what the part of the grammar reads that the rule stands for. -/
theorem run_ofRule (r : Rule) (h : r.isOuter = true → n = limit) :
    (ofRule r).run (Call.parser limit n) = r.parser limit n := by
  cases r with
  | program =>
    simp only [ofRule, run_bind, run_step, run_rule .function, run_collect, run_ite, run_pure,
      Step.run, Call.parser_rule, Rule.parser, Grammar.program]
  | function =>
    obtain rfl := h rfl
    simp only [ofRule, run_bind, run_step, run_rule .parameters, run_rule .declarations,
      run_rule .statements, run_ite, run_pure, Step.run, Call.parser_rule, Rule.parser,
      Grammar.function]
  | parameters =>
    simp only [ofRule, run_bind, run_step, run_separated, run_declaration, run_ite, run_pure,
      Step.run, Rule.parser, Grammar.parameters]
  | declarations =>
    rw [ofRule, run_bind, run_nextDeclaration]
    refine bind_congr fun first => ?_
    cases first with
    | none => rfl
    | some first =>
      simp only [run_bind, run_collect, run_step, run_ite, run_pure, run_nextDeclaration, Step.run]
  | typeName =>
    obtain rfl := h rfl
    rw [ofRule, run_bind, run_step]
    refine bind_congr fun base => ?_
    cases base with
    | none => exact run_step _
    | some base =>
      simp only [run_bind, run_step, run_rule .expression, run_ite, run_pure, Step.run,
        Call.parser_rule, Rule.parser]
  | statements =>
    simp only [ofRule, run_separated, run_rule .statement, Call.parser_rule, Rule.parser]
  | statement =>
    rw [ofRule, run_nested]
    cases n <;> rfl
  | statementWithin =>
    simp only [ofRule, run_bind, run_step, run_rule .printStatement, run_rule .ifStatement,
      run_rule .whileStatement, run_rule .readStatement, run_rule .writeStatement,
      run_rule .expression, run_rule .blockStatement, run_rule .assignment, run_ite, run_pure,
      Step.run, Call.parser_rule, Rule.parser, Grammar.statementWithin]
  | printStatement =>
    simp only [ofRule, run_bind, run_step, run_pure, Step.run, Rule.parser, Grammar.printStatement]
  | ifStatement =>
    simp only [ofRule, run_bind, run_step, run_rule .condition, run_rule .statement, run_ite,
      run_pure, Step.run, Call.parser_rule, Rule.parser, Grammar.ifStatement]
  | whileStatement =>
    simp only [ofRule, run_bind, run_step, run_rule .condition, run_rule .statement, run_pure,
      Step.run, Call.parser_rule, Rule.parser, Grammar.whileStatement]
  | readStatement =>
    simp only [ofRule, run_bind, run_step, run_rule .location, run_pure, Step.run,
      Call.parser_rule, Rule.parser, Grammar.readStatement]
  | writeStatement =>
    simp only [ofRule, run_bind, run_step, run_rule .expression, run_pure, Step.run,
      Call.parser_rule, Rule.parser, Grammar.writeStatement]
  | blockStatement =>
    simp only [ofRule, run_bind, run_step, run_rule .statements, run_ite, run_pure, Step.run,
      Call.parser_rule, Rule.parser, Grammar.blockStatement]
  | assignment =>
    rw [ofRule, run_bind, run_rule .location]
    refine bind_congr fun target => ?_
    rw [run_bind, run_step]
    refine bind_congr fun sign => ?_
    rcases sign with _ | _ | op
    · exact run_step _
    · simp only [run_bind, run_rule .expression, run_pure, Call.parser_rule, Rule.parser]
    · simp only [run_bind, run_rule .expression, run_pure, Call.parser_rule, Rule.parser]
  | location =>
    simp only [ofRule, run_bind, run_step, run_rule .expression, run_ite, run_pure, Step.run,
      Call.parser_rule, Rule.parser, Grammar.location]
  | condition => exact run_rule .disjunction
  | disjunction =>
    simp only [ofRule, run_chained, run_connective, run_rule .conjunction, Call.parser_rule,
      Rule.parser, Grammar.condition]
  | conjunction =>
    simp only [ofRule, run_chained, run_connective, run_rule .negation, Call.parser_rule, Rule.parser,
      Grammar.conjunction]
  | negation =>
    have hnested : Call.parser limit n (.nested .disjunction) =
        Grammar.nested limit (level limit n) Level.condition :=
      Call.parser_nested (fun _ => rfl) n
    simp only [ofRule, run_bind, run_step, run_nested .disjunction, run_rule .comparison, hnested,
      run_ite, run_pure, Step.run, Call.parser_rule, Rule.parser, Grammar.negation]
  | comparison =>
    rw [ofRule, run_bind, run_rule .expression]
    refine bind_congr fun left => ?_
    rw [run_bind, run_step]
    refine bind_congr fun op => ?_
    cases op with
    | none => rfl
    | some op =>
      simp only [run_bind, run_rule .expression, run_step, run_ite, run_pure, Step.run,
        Call.parser_rule, Rule.parser]
  | expression =>
    simp only [ofRule, run_chained, run_step, run_rule .product, Step.run, Call.parser_rule,
      Rule.parser, Grammar.expression]
  | product =>
    simp only [ofRule, run_chained, run_step, run_rule .signed, Step.run, Call.parser_rule,
      Rule.parser, Grammar.product]
  | signed =>
    have hnested : Call.parser limit n (.nested .signed) =
        Grammar.nested limit (level limit n) Level.signed :=
      Call.parser_nested (fun _ => rfl) n
    rw [ofRule, run_bind, run_step]
    refine bind_congr fun sign => ?_
    cases sign with
    | none => exact run_rule .primary
    | some sign => simp only [run_bind, run_nested .signed, hnested, run_pure]
  | primary =>
    rw [ofRule, run_nested .primaryWithin]
    exact Call.parser_nested (fun _ => rfl) n
  | primaryWithin =>
    rw [ofRule, run_bind, run_step]
    simp only [Step.run, Grammar.literal, bind_assoc]
    refine bind_congr fun integerToken => ?_
    cases integerToken with
    | some t =>
      simp only [bind_assoc, pure_bind]
      exact bind_pure (integer t)
    | none =>
      simp only [bind_assoc]
      refine bind_congr fun floatToken => ?_
      cases floatToken with
      | some t =>
        simp only [bind_assoc, pure_bind]
        exact bind_pure (float t)
      | none =>
        rw [pure_bind]
        simp only [run_bind, run_step, Step.run]
        refine bind_congr fun name => ?_
        cases name with
        | some t => exact run_named t.text
        | none =>
          simp only [run_bind, run_step, run_rule .condition, run_ite, run_pure, Step.run,
            Call.parser_rule, Rule.parser, Rule.parser.levelAt]
  | arguments =>
    simp only [ofRule, run_bind, run_step, run_separated, run_rule .expression, run_ite, run_pure,
      Step.run, Call.parser_rule, Rule.parser, Grammar.arguments, Rule.parser.levelAt]

end Script

end Grammar
end SyntaxGraph
