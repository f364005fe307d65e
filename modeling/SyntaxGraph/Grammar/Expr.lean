/-
# The grammar of expressions

From the loosest to the tightest: `or`, `and`, `not`, one comparison, sums,
products, signs, and primaries (literals, names, calls, entries of
arrays, parentheses). The operand of `not` reaches as far as the condition around it
does. Conditions start at `or`, all other expressions at sums; parentheses
start at `or` again.

Nesting is limited. A primary, the operand of a sign and the operand of `not`
each open a level; `Level` holds what the grammar can do one level down, and
nothing is there below the last level.

Key definitions: `Level`, `condition`, `expression`, `signed`, `level`.
-/
import SyntaxGraph.Decimal.Read
import SyntaxGraph.Grammar.Stream
import SyntaxGraph.Tree.Basic

namespace SyntaxGraph
namespace Grammar

/-- The parts of the grammar that start one level further down. -/
structure Level where
  condition : Parser Expr
  expression : Parser Expr
  signed : Parser Expr

/-- The operators of sums. -/
def sumOperator : Token.Kind → Option Arith
  | .plus => some .add
  | .minus => some .sub
  | _ => none

/-- The operators of products. -/
def productOperator : Token.Kind → Option Arith
  | .star => some .mul
  | .slash => some .div
  | _ => none

/-- The signs. -/
def signOf : Token.Kind → Option Sign
  | .plus => some .plus
  | .minus => some .minus
  | _ => none

/-- The comparisons. -/
def comparisonOf : Token.Kind → Option Comparison
  | .lt => some .lt
  | .le => some .le
  | .gt => some .gt
  | .ge => some .ge
  | .eqEq => some .eq
  | .notEq => some .ne
  | _ => none

/-- The connective `op`, if it is in front. -/
def connective (kind : Token.Kind) (op : Connective) : Parser (Option Connective) := do
  if ← accept kind then return some op else return none

section

variable (limit : Nat) (deeper : Option Level)

/-- Opens a level and reads on there with the given part of the grammar. -/
def nested {α : Type} (part : Level → Parser α) : Parser α :=
  match deeper with
  | some next => part next
  | none => unexpected (.nesting limit)

/-- The value of an integer literal. -/
def integer (t : Token) : Parser Expr :=
  match Decimal.readInt t.text.toList with
  | some i => return .number (.int i)
  | none => failAt t .integer

/-- The value of a float literal. -/
def float (t : Token) : Parser Expr :=
  match Decimal.readFloat t.text.toList with
  | some x => return .number (.float x)
  | none => failAt t .float

/-- The arguments of a call; there may be none. -/
def arguments (next : Level) : Parser (List Expr) := do
  if ← peek (· = .rParen) then return [] else separated .comma next.expression

/-- What a name is the start of: a call, an entry of an array or a variable. -/
def named (next : Level) (name : String) : Parser Expr := do
  if ← accept .lParen then
    let es ← arguments next
    let _ ← expect .rParen .argumentsClosing
    return .call name es
  else if ← accept .lBracket then
    let i ← next.expression
    let _ ← expect .rBracket .indexClosing
    return .entry name i
  else return .var name

/-- A primary, one level down already. -/
def primaryWithin (next : Level) : Parser Expr := do
  if let some t ← accept? .intLiteral then integer t
  else if let some t ← accept? .floatLiteral then float t
  else if let some t ← accept? .ident then named next t.text
  else if ← accept .lParen then
    let e ← next.condition
    let _ ← expect .rParen .parenthesis
    return e
  else unexpected .expression

/-- Literals, names, calls, entries of arrays and parentheses. -/
def primary : Parser Expr :=
  nested limit deeper primaryWithin

/-- A primary with any number of signs in front. -/
def signed : Parser Expr := do
  match ← choose signOf with
  | some sign => return .signed sign (← nested limit deeper Level.signed)
  | none => primary limit deeper

/-- Products. -/
def product : Parser Expr :=
  chained Expr.arith (choose productOperator) (signed limit deeper)

/-- Sums: expressions without comparisons and connectives. -/
def expression : Parser Expr :=
  chained Expr.arith (choose sumOperator) (product limit deeper)

/-- An expression, or one comparison of two. -/
def comparison : Parser Expr := do
  let left ← expression limit deeper
  match ← choose comparisonOf with
  | none => return left
  | some op =>
    let right ← expression limit deeper
    if ← peek fun kind => (comparisonOf kind).isSome then unexpected .comparisonEnd
    else return .compare op left right

/-- A comparison, or the negation of all that follows. -/
def negation : Parser Expr := do
  if ← accept .notWord then return .not (← nested limit deeper Level.condition)
  else comparison limit deeper

/-- Negations joined by `and`. -/
def conjunction : Parser Expr :=
  chained Expr.logical (connective .andWord .and) (negation limit deeper)

/-- Conditions: conjunctions joined by `or`. -/
def condition : Parser Expr :=
  chained Expr.logical (connective .orWord .or) (conjunction limit deeper)

end

/-- The grammar of expressions with `levels` levels left below; nothing where
none was left. -/
def level (limit : Nat) : Nat → Option Level
  | 0 => none
  | levels + 1 =>
    let deeper := level limit levels
    some ⟨condition limit deeper, expression limit deeper, signed limit deeper⟩

end Grammar
end SyntaxGraph
