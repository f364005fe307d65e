/-
# Operators

The operators of expressions and of updating assignments, with their symbols.

Key definitions: `Arith`, `Sign`, `Comparison`, `Connective`, `Update`.
-/

namespace SyntaxGraph

/-- The operators of arithmetic. -/
inductive Arith where
  | add | sub | mul | div
  deriving DecidableEq, Repr

/-- The signs in front of an operand. -/
inductive Sign where
  | plus | minus
  deriving DecidableEq, Repr

/-- The comparisons. -/
inductive Comparison where
  | lt | le | gt | ge | eq | ne
  deriving DecidableEq, Repr

/-- The logical connectives of two conditions. -/
inductive Connective where
  | and | or
  deriving DecidableEq, Repr

/-- The assignments that update their target. -/
inductive Update where
  | add | sub
  deriving DecidableEq, Repr

/-- The symbol of an operator of arithmetic. -/
def Arith.symbol : Arith → String
  | add => "+"
  | sub => "-"
  | mul => "*"
  | div => "/"

/-- The symbol of a sign. -/
def Sign.symbol : Sign → String
  | plus => "+"
  | minus => "-"

/-- The symbol of a comparison. -/
def Comparison.symbol : Comparison → String
  | lt => "<"
  | le => "<="
  | gt => ">"
  | ge => ">="
  | eq => "=="
  | ne => "!="

/-- The name of a connective. -/
def Connective.symbol : Connective → String
  | and => "AND"
  | or => "OR"

/-- The connective as it stands between two conditions. -/
def Connective.word : Connective → String
  | and => "and"
  | or => "or"

/-- The symbol of an updating assignment. -/
def Update.symbol : Update → String
  | add => "+="
  | sub => "-="

end SyntaxGraph
