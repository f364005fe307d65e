/-
# Numbers in a program

A literal is an integer or a float. A float is written with the fewest digits
that read back, positionally from 0.0001 up to below 10^16.

Key definitions: `Number`, `Number.text`, `Number.same`.
-/
import SyntaxGraph.Decimal.Layout

namespace SyntaxGraph

/-- The value of a literal. -/
inductive Number where
  | int (value : Int)
  | float (value : Float)
  deriving DecidableEq, Repr

/-- The parts of a float: what it is when its sign is left aside. -/
inductive Magnitude where
  | zero
  | finite (binary : Decimal.Binary)
  | infinite
  | undefined
  deriving DecidableEq, Repr

namespace Magnitude

/-- The width of the fraction of a float. -/
def fractionBits : Nat := 52

/-- The magnitude with the given eleven bits of exponent and 52 bits of
fraction. The smallest exponent has no leading one; the gap below a power of
two is narrow, unless it is the smallest with a leading one. -/
def ofFields (exponent fraction : Nat) : Magnitude :=
  if exponent = 2047 then if fraction = 0 then infinite else undefined
  else if exponent = 0 then
    if fraction = 0 then zero else finite ⟨fraction, -1074, false⟩
  else finite ⟨Nat.pow 2 fractionBits + fraction, exponent - 1075, fraction = 0 && 1 < exponent⟩

/-- The magnitude of a float. -/
def ofFloat (x : Float) : Magnitude :=
  let bits := x.toBits.toNat
  let fractions := Nat.pow 2 fractionBits
  ofFields (bits / fractions % 2 ^ 11) (bits % fractions)

/-- The layout of floats. -/
def layout : Decimal.Layout :=
  ⟨-4, 16⟩

/-- The text of a magnitude. -/
def text : Magnitude → String
  | zero => "0.0"
  | finite b => String.ofList (layout.write b.shortest)
  | infinite => "inf"
  | undefined => "NaN"

end Magnitude

namespace Number

/-- The text of a float: a sign in front of a negative one, zero included. -/
def floatText (x : Float) : String :=
  match Magnitude.ofFloat x with
  | .undefined => Magnitude.undefined.text
  | magnitude => if 2 ^ 63 ≤ x.toBits.toNat then "-" ++ magnitude.text else magnitude.text

/-- The text of a literal. -/
def text : Number → String
  | int i => Decimal.intText i
  | float x => floatText x

/-- The literal is a float. -/
def isFloat : Number → Bool
  | int _ => false
  | float _ => true

/-- Equality of values: a float that is no number differs from itself, and the
two zeros are the same. -/
def same : Number → Number → Bool
  | int i, int j => i = j
  | float x, float y => x == y
  | _, _ => false

end Number
end SyntaxGraph
