/-
# The shortest decimal that reads back

A binary float `mantissa · 2 ^ exponent` is the one float nearest to every
decimal in an interval around it. Of the decimals in that interval we take
one with the fewest digits, and of those the nearest to the float.

For one digit, two digits and so on, the two neighbours of the float on the
grid of decimals with that many digits are tested in exact arithmetic. The
first grid with a neighbour in the interval has the answer: if any point of a
grid lies in the interval, one of the two neighbours does.

Key definitions: `Binary`, `Binary.onGrid`, `Binary.shortest`.
-/
import SyntaxGraph.Decimal.Digits

namespace SyntaxGraph
namespace Decimal

/-- The positive float `mantissa · 2 ^ exponent`. Where `narrow`, the next
float below is only half as far as the next float above. -/
structure Binary where
  mantissa : Nat
  exponent : Int
  narrow : Bool
  deriving DecidableEq, Repr

/-- The decimal `coefficient · 10 ^ exponent`. -/
structure Scaled where
  coefficient : Nat
  exponent : Int
  deriving DecidableEq, Repr

/-- The same decimal without zeros at the end of its coefficient. -/
def Scaled.trim (d : Scaled) : Scaled :=
  if d.coefficient ≠ 0 ∧ d.coefficient % 10 = 0 then
    Scaled.trim ⟨d.coefficient / 10, d.exponent + 1⟩
  else d
termination_by d.coefficient
decreasing_by omega

namespace Binary

/-- The float in units of `2 ^ (exponent - 2)`. -/
def quarters (b : Binary) : Nat :=
  4 * b.mantissa

/-- The lower end of the interval that rounds to the float, in the same units. -/
def low (b : Binary) : Nat :=
  b.quarters - (if b.narrow then 1 else 2)

/-- The upper end of the interval that rounds to the float, in the same units. -/
def high (b : Binary) : Nat :=
  b.quarters + 2

/-- The power of ten of the float's first decimal digit. -/
def leading (b : Binary) : Int :=
  let num := b.quarters * Nat.pow 2 (b.exponent - 2).toNat
  let den := Nat.pow 2 (2 - b.exponent).toNat
  if den ≤ num then ((digits (num / den)).length : Int) - 1
  else -((digits ((den - 1) / num)).length : Int)

/-- The multiple of `10 ^ e` that rounds to the float, if one of the float's
two neighbours does: the nearer of the two, the upper one at a tie. The ends of
the interval round to the float when its mantissa is even. -/
def onGrid (b : Binary) (e : Int) : Option Nat :=
  let step := Nat.pow 10 e.toNat * Nat.pow 2 (2 - b.exponent).toNat
  let unit := Nat.pow 10 (-e).toNat * Nat.pow 2 (b.exponent - 2).toNat
  let within (x : Nat) : Bool :=
    if b.mantissa % 2 = 0 then b.low * unit ≤ x && x ≤ b.high * unit
    else b.low * unit < x && x < b.high * unit
  let below := b.quarters * unit / step
  match within (below * step), within ((below + 1) * step) with
  | true, true =>
    some (if 2 * (b.quarters * unit) < (2 * below + 1) * step then below else below + 1)
  | true, false => some below
  | false, true => some (below + 1)
  | false, false => none

/-- Seventeen digits tell every float from its neighbours. -/
def mostDigits : Nat := 17

/-- A decimal with the fewest digits that rounds to the float, the nearest of
those. -/
def shortest (b : Binary) : Scaled :=
  let found := (List.range mostDigits).findSome? fun (places : Nat) =>
    (b.onGrid (b.leading - places)).map fun c => (⟨c, b.leading - places⟩ : Scaled)
  (found.getD ⟨0, 0⟩).trim

end Binary
end Decimal
end SyntaxGraph
