/-
# The text of a decimal

A decimal is written positionally or with an exponent, according to the
place of its first digit. `Layout` says which places are positional.

Key definitions: `Layout`, `Layout.write`, `positional`, `scientific`.
-/
import SyntaxGraph.Decimal.Shortest

namespace SyntaxGraph
namespace Decimal

/-- Decimals whose first digit counts `10 ^ k` with `least ≤ k < limit` are
written positionally, all others with an exponent. -/
structure Layout where
  least : Int
  limit : Int
  deriving DecidableEq, Repr

/-- All digits around the point, at least one on either side of it. -/
def positional (d : Scaled) : List Char :=
  let ds := digits d.coefficient
  let point : Int := ds.length + d.exponent
  if point ≤ 0 then ['0', '.'] ++ List.replicate (-point).toNat '0' ++ ds
  else if d.exponent ≥ 0 then ds ++ List.replicate d.exponent.toNat '0' ++ ['.', '0']
  else ds.take point.toNat ++ ['.'] ++ ds.drop point.toNat

/-- The power of ten that the first digit counts. -/
def Scaled.leading (d : Scaled) : Int :=
  (digits d.coefficient).length - 1 + d.exponent

/-- One digit, the others after a point if there are any, and the exponent. -/
def scientific (d : Scaled) : List Char :=
  let ds := digits d.coefficient
  let fraction := if ds.length ≤ 1 then [] else '.' :: ds.drop 1
  ds.take 1 ++ fraction ++ ['e'] ++ (intText d.leading).toList

/-- The text of a positive decimal. -/
def Layout.write (layout : Layout) (d : Scaled) : List Char :=
  if layout.least ≤ d.leading ∧ d.leading < layout.limit then positional d else scientific d

end Decimal
end SyntaxGraph
