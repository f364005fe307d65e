/-
# Positions in a source text

Lines and columns count from one. Only a newline ends a line, and every
character is one column wide.

Key definitions: `Position`, `Position.after`, `Position.text`.
-/
import SyntaxGraph.Decimal.Digits

namespace SyntaxGraph

/-- A line and a column of a source text. -/
structure Position where
  line : Nat
  column : Nat
  deriving DecidableEq, Repr

namespace Position

/-- Where a source text starts. -/
def start : Position :=
  ⟨1, 1⟩

/-- The position behind the character `c`. -/
def advance (p : Position) (c : Char) : Position :=
  if c = '\n' then ⟨p.line + 1, 1⟩ else ⟨p.line, p.column + 1⟩

/-- The position behind the characters `cs`. -/
def after (p : Position) (cs : List Char) : Position :=
  cs.foldl advance p

/-- The position in words. -/
def text (p : Position) : String :=
  "line " ++ Decimal.natText p.line ++ ", column " ++ Decimal.natText p.column

@[simp] theorem after_nil (p : Position) : p.after [] = p := rfl

@[simp] theorem after_cons (p : Position) (c : Char) (cs : List Char) :
    p.after (c :: cs) = (p.advance c).after cs := rfl

theorem after_append (p : Position) (cs ds : List Char) :
    p.after (cs ++ ds) = (p.after cs).after ds := by
  simp [after, List.foldl_append]

end Position
end SyntaxGraph
