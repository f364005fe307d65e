/-
# Expressions on one line

An expression is written as it could stand in a source text, with every
operand of an operator in parentheses that has an operator of its own; signs
need none.

Key definitions: `Expr.inlineText`.
-/
import SyntaxGraph.Tree.Basic

namespace SyntaxGraph

/-- As an operand, the expression stands in parentheses. -/
def Expr.isCompound : Expr → Bool
  | .arith .. | .compare .. | .logical .. | .not _ => true
  | _ => false

/-- The text of the operand `e`, in parentheses if needed. -/
def Expr.asOperand (e : Expr) (text : String) : String :=
  if e.isCompound then "(" ++ text ++ ")" else text

mutual

/-- The expression on one line. -/
def Expr.inlineText : Expr → String
  | .arith op l r =>
    l.asOperand l.inlineText ++ " " ++ op.symbol ++ " " ++ r.asOperand r.inlineText
  | .signed sign e => sign.symbol ++ e.asOperand e.inlineText
  | .number n => n.text
  | .var x => x
  | .entry a i => a ++ "[" ++ i.inlineText ++ "]"
  | .call f es => f ++ "(" ++ ", ".intercalate (Expr.inlineTexts es) ++ ")"
  | .compare op l r =>
    l.asOperand l.inlineText ++ " " ++ op.symbol ++ " " ++ r.asOperand r.inlineText
  | .logical op l r =>
    l.asOperand l.inlineText ++ " " ++ op.word ++ " " ++ r.asOperand r.inlineText
  | .not e => "not " ++ e.asOperand e.inlineText

/-- Each of the expressions on one line. -/
def Expr.inlineTexts : List Expr → List String
  | [] => []
  | e :: es => e.inlineText :: Expr.inlineTexts es

end

end SyntaxGraph
