/-
# Decimal digits

Natural numbers and integers as runs of decimal digits, and back.

Key definitions: `digits`, `value`, `natText`, `intText`.
Key theorems: `value_digits`.
-/

namespace SyntaxGraph

-- powers of numbers are the core library's, also beside a library with powers of its own
attribute [default_instance 10000] instPowNat

namespace Decimal

/-- The decimal digits of `n`, most significant first. -/
def digits (n : Nat) : List Char :=
  Nat.toDigits 10 n

/-- The number that a run of decimal digits stands for. -/
def value (ds : List Char) : Nat :=
  Nat.ofDigitChars 10 ds 0

/-- A number is what its digits stand for. -/
theorem value_digits (n : Nat) : value (digits n) = n := by
  simp [value, digits]

/-- `n` in decimal. -/
def natText (n : Nat) : String :=
  String.ofList (digits n)

/-- `i` in decimal, a minus sign in front if it is negative. -/
def intText (i : Int) : String :=
  if i < 0 then "-" ++ natText i.natAbs else natText i.natAbs

end Decimal
end SyntaxGraph
