/-
# The rules of the grammar as scripts

The parts of the grammar call one another, in one of two ways: directly, or
one level of nesting further down. To speak of the calls, the parts are written
out once more, each as a script: a tree of elementary steps on the stream and
of calls, with a continuation for every answer. What a script reads is what
its part of the grammar reads (`Script.run_ofRule`).

Key definitions: `Rule`, `Call`, `Step`, `Script`, `Script.ofRule`.
-/
import SyntaxGraph.Grammar.Program

namespace SyntaxGraph
namespace Grammar

/-- The parts of the grammar that call or are called. -/
inductive Rule where
  | program | function | parameters | declarations | typeName
  | statements | statement | statementWithin
  | printStatement | ifStatement | whileStatement | readStatement | writeStatement
  | blockStatement | assignment | location
  | condition | disjunction | conjunction | negation | comparison
  | expression | product | signed | primary | primaryWithin | arguments
  deriving DecidableEq, Repr

/-- What a rule reads. -/
@[reducible]
def Rule.Result : Rule → Type
  | program => Program
  | function => Function
  | parameters | declarations => List Declaration
  | typeName => TypeName
  | statements => List Stmt
  | statement | statementWithin | printStatement | ifStatement | whileStatement | readStatement
  | writeStatement | blockStatement | assignment => Stmt
  | location | condition | disjunction | conjunction | negation | comparison | expression
  | product | signed | primary | primaryWithin => Expr
  | arguments => List Expr

/-- A call of a rule: a direct one, or one that opens a level of nesting for it. -/
inductive Call where
  | rule (r : Rule)
  | nested (r : Rule)
  deriving DecidableEq, Repr

namespace Call

/-- The rule that is called. -/
def target : Call → Rule
  | rule r | nested r => r

/-- The call opens a level. -/
def isNested : Call → Bool
  | rule _ => false
  | nested _ => true

end Call

/-! ### Steps and scripts -/

/-- A literal in front, as a number. -/
def literal : Parser (Option Expr) := do
  if let some t ← accept? .intLiteral then return some (← integer t)
  else if let some t ← accept? .floatLiteral then return some (← float t)
  else return none

/-- The tokens at hand. -/
def atHand : Parser (List Token) := fun s =>
  .ok (s.tokens, s)

/-- The elementary steps of the grammar. None of them calls a rule. -/
inductive Step : Type → Type 1 where
  | peek (test : Token.Kind → Bool) : Step Bool
  | choose {α : Type} (f : Token.Kind → Option α) : Step (Option α)
  | accept (kind : Token.Kind) : Step Bool
  | name : Step (Option Token)
  | literal : Step (Option Expr)
  | expect (kind : Token.Kind) (place : Place) : Step Token
  | refuse {α : Type} (expected : Expectation) : Step α
  | settle : Step Unit
  | atEnd : Step Bool
  | atHand : Step (List Token)

/-- What a step does. -/
def Step.run {α : Type} : Step α → Parser α
  | peek test => Grammar.peek test
  | choose f => Grammar.choose f
  | accept kind => Grammar.accept kind
  | name => accept? .ident
  | literal => Grammar.literal
  | expect kind place => Grammar.expect kind place
  | refuse expected => unexpected expected
  | settle => Grammar.settle
  | atEnd => Grammar.atEnd
  | atHand => Grammar.atHand

/-- Steps and calls one after the other. -/
inductive Script (α : Type) : Type 1 where
  | done (a : α)
  | step {β : Type} (s : Step β) (next : β → Script α)
  | call (c : Call) (next : c.target.Result → Script α)

namespace Script

variable {α β : Type}

/-- A script that goes on where another one is done. -/
def bind : Script α → (α → Script β) → Script β
  | done a, f => f a
  | step s next, f => step s fun b => (next b).bind f
  | call c next, f => call c fun b => (next b).bind f

instance : Monad Script where
  pure := done
  bind := bind

instance : MonadLift Step Script where
  monadLift s := step s done

/-- Calls a rule directly. -/
def rule (r : Rule) : Script r.Result :=
  call (.rule r) done

/-- Calls a rule one level down. -/
def nested (r : Rule) : Script r.Result :=
  call (.nested r) done

/-- Repeats a script until it yields nothing, and at most once for each of the given
tokens. -/
def collectWithin (once : Script (Option α)) : List Token → Script (List α)
  | [] => return []
  | _ :: others => do
    match ← once with
    | some a => return a :: (← collectWithin once others)
    | none => return []

/-- Repeats a script until it yields nothing: the tokens at hand bound the rounds. -/
def collect (once : Script (Option α)) : Script (List α) := do
  collectWithin once (← Step.atHand)

/-- One or more of `item`, with a token of the kind `separator` in between. -/
def separated (separator : Token.Kind) (item : Script α) : Script (List α) := do
  let first ← item
  let others ← collect do
    if ← Step.accept separator then return some (← item) else return none
  return first :: others

/-- Operands joined by operators that group to the left. -/
def chained {ω : Type} (join : ω → α → α → α) (operator : Script (Option ω))
    (operand : Script α) : Script α := do
  let first ← operand
  let others ← collect do
    match ← operator with
    | some op => return some (op, ← operand)
    | none => return none
  return others.foldl (fun left (op, right) => join op left right) first

/-- The connective `op`, if it is in front. -/
def connective (kind : Token.Kind) (op : Connective) : Script (Option Connective) := do
  if ← Step.accept kind then return some op else return none

/-! ### The scripts of the rules -/

/-- What a name is the start of: a call, an entry of an array or a variable. -/
def named (name : String) : Script Expr := do
  if ← Step.accept .lParen then
    let es ← rule .arguments
    let _ ← Step.expect .rParen .argumentsClosing
    return .call name es
  else if ← Step.accept .lBracket then
    let i ← rule .expression
    let _ ← Step.expect .rBracket .indexClosing
    return .entry name i
  else return .var name

/-- A name, a colon and a type. -/
def declaration (name colon : Place) : Script Declaration := do
  let t ← Step.expect .ident name
  let _ ← Step.expect .colon colon
  return ⟨t.text, ← rule .typeName⟩

/-- The next local declaration, if a name is in front. -/
def nextDeclaration : Script (Option Declaration) := do
  if ← Step.peek (· = .ident) then return some (← declaration .declarationName .declarationColon)
  else return none

/-- What a rule does: its steps, and its calls of other rules. -/
def ofRule : (r : Rule) → Script r.Result
  | .program => do
    Step.settle
    let first ← rule .function
    let others ← collect do
      if ← Step.atEnd then return none else return some (← rule .function)
    return ⟨first :: others⟩
  | .function => do
    let _ ← Step.expect .funWord .functionStart
    let name ← Step.expect .ident .functionName
    let _ ← Step.expect .lParen .functionOpening
    let ps ← rule .parameters
    let _ ← Step.expect .rParen .functionClosing
    let ds ← rule .declarations
    let _ ← Step.expect .beginWord .functionBody
    let body ← rule .statements
    if ← Step.accept .endWord then return ⟨name.text, ps, ds, body⟩ else Step.refuse .bodyEnd
  | .parameters => do
    if ← Step.peek (· = .rParen) then return []
    else separated .comma (declaration .parameterName .parameterColon)
  | .declarations => do
    match ← nextDeclaration with
    | none => return []
    | some first =>
      let others ← collect do
        if ← Step.accept .semicolon then nextDeclaration else return none
      return first :: others
  | .typeName => do
    match ← Step.choose typeName.baseTypeOf with
    | none => Step.refuse .typeName
    | some base =>
      if ← Step.accept .lBracket then
        let size ← rule .expression
        let _ ← Step.expect .rBracket .sizeClosing
        return ⟨base, some size⟩
      else return ⟨base, none⟩
  | .statements => separated .semicolon (rule .statement)
  | .statement => nested .statementWithin
  | .statementWithin => do
    if ← Step.accept .printWord then rule .printStatement
    else if ← Step.accept .ifWord then rule .ifStatement
    else if ← Step.accept .whileWord then rule .whileStatement
    else if ← Step.accept .readWord then rule .readStatement
    else if ← Step.accept .writeWord then rule .writeStatement
    else if ← Step.accept .returnWord then return .ret (← rule .expression)
    else if ← Step.accept .breakWord then return .leave
    else if ← Step.accept .skipWord then return .skip
    else if ← Step.accept .beginWord then rule .blockStatement
    else if ← Step.peek (· = .ident) then rule .assignment
    else Step.refuse .statement
  | .printStatement => do
    let _ ← Step.expect .lParen .printOpening
    let t ← Step.expect .stringLiteral .printText
    let _ ← Step.expect .rParen .printClosing
    return .print t.text
  | .ifStatement => do
    let c ← rule .condition
    let _ ← Step.expect .thenWord .ifThen
    let yes ← rule .statement
    if ← Step.accept .elseWord then return .ifThenElse c yes (← rule .statement)
    else return .ifThen c yes
  | .whileStatement => do
    let c ← rule .condition
    let _ ← Step.expect .doWord .whileDo
    return .whileDo c (← rule .statement)
  | .readStatement => do
    let _ ← Step.expect .lParen .readOpening
    let target ← rule .location
    let _ ← Step.expect .rParen .readClosing
    return .read target
  | .writeStatement => do
    let _ ← Step.expect .lParen .writeOpening
    let value ← rule .expression
    let _ ← Step.expect .rParen .writeClosing
    return .write value
  | .blockStatement => do
    let ss ← rule .statements
    if ← Step.accept .endWord then return .block ss else Step.refuse .blockEnd
  | .assignment => do
    let target ← rule .location
    match ← Step.choose assignmentOf with
    | some none => return .assign target (← rule .expression)
    | some (some op) => return .update op target (← rule .expression)
    | none => Step.refuse .assignment
  | .location => do
    let t ← Step.expect .ident .target
    if ← Step.accept .lBracket then
      let i ← rule .expression
      let _ ← Step.expect .rBracket .indexClosing
      return .entry t.text i
    else return .var t.text
  | .condition => rule .disjunction
  | .disjunction => chained Expr.logical (connective .orWord .or) (rule .conjunction)
  | .conjunction => chained Expr.logical (connective .andWord .and) (rule .negation)
  | .negation => do
    if ← Step.accept .notWord then return .not (← nested .disjunction) else rule .comparison
  | .comparison => do
    let left ← rule .expression
    match ← Step.choose comparisonOf with
    | none => return left
    | some op =>
      let right ← rule .expression
      if ← Step.peek fun kind => (comparisonOf kind).isSome then Step.refuse .comparisonEnd
      else return .compare op left right
  | .expression => chained Expr.arith (Step.choose sumOperator) (rule .product)
  | .product => chained Expr.arith (Step.choose productOperator) (rule .signed)
  | .signed => do
    match ← Step.choose signOf with
    | some sign => return .signed sign (← nested .signed)
    | none => rule .primary
  | .primary => nested .primaryWithin
  | .primaryWithin => do
    if let some e ← Step.literal then return e
    else if let some t ← Step.name then named t.text
    else if ← Step.accept .lParen then
      let e ← rule .condition
      let _ ← Step.expect .rParen .parenthesis
      return e
    else Step.refuse .expression
  | .arguments => do
    if ← Step.peek (· = .rParen) then return [] else separated .comma (rule .expression)

end Script

end Grammar
end SyntaxGraph
