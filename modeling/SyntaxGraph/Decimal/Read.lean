/-
# Reading numbers

Integers are an optional sign and decimal digits, in the range of 64 bits.
Floats are an optional sign and either a word for infinity or for no number,
in any case, or digits with an optional point and an optional exponent; they
are rounded to the nearest float.

Key definitions: `readInt`, `readFloat`.
-/
import SyntaxGraph.Decimal.Digits

namespace SyntaxGraph
namespace Decimal

/-- An optional sign: whether it is a minus, and what follows. -/
def readSign : List Char → Bool × List Char
  | '+' :: cs => (false, cs)
  | '-' :: cs => (true, cs)
  | cs => (false, cs)

/-- At least one digit, and nothing else. -/
def isDigits (ds : List Char) : Bool :=
  !ds.isEmpty && ds.all Char.isDigit

/-- Integers lie from `-2 ^ 63` to `2 ^ 63 - 1`. -/
def inWord (i : Int) : Bool :=
  -2 ^ 63 ≤ i && i < 2 ^ 63

/-- The integer that a text stands for. -/
def readInt (cs : List Char) : Option Int :=
  let (minus, ds) := readSign cs
  if isDigits ds then
    let i : Int := if minus then -(value ds : Int) else value ds
    if inWord i then some i else none
  else none

/-- The digits before and after an optional point, at least one in all, and
what follows them. -/
def readDigits (cs : List Char) : Option (List Char × List Char × List Char) :=
  let whole := cs.takeWhile Char.isDigit
  let rest := cs.dropWhile Char.isDigit
  let (fraction, rest) := match rest with
    | '.' :: rest => (rest.takeWhile Char.isDigit, rest.dropWhile Char.isDigit)
    | rest => ([], rest)
  if whole.isEmpty && fraction.isEmpty then none else some (whole, fraction, rest)

/-- An optional exponent that ends the text. -/
def readExponent : List Char → Option Int
  | [] => some 0
  | c :: cs =>
    if c = 'e' || c = 'E' then
      let (minus, ds) := readSign cs
      if isDigits ds then some (if minus then -(value ds : Int) else value ds) else none
    else none

/-- The float nearest to `n · 10 ^ e`. The first digit of `n` decides for
decimals far outside the range of floats. -/
def nearest (n : Nat) (e : Int) : Float :=
  let leading := ((digits n).length : Int) + e
  if n = 0 || leading < -400 then 0.0
  else if leading > 400 then 1.0 / 0.0
  else Float.ofScientific n (e < 0) e.natAbs

/-- The float of an unsigned text. -/
def readMagnitude (cs : List Char) : Option Float :=
  let word := cs.map Char.toLower
  if word = "inf".toList || word = "infinity".toList then some (1.0 / 0.0)
  else if word = "nan".toList then some (0.0 / 0.0)
  else match readDigits cs with
    | none => none
    | some (whole, fraction, rest) => (readExponent rest).map fun e =>
      nearest (value (whole ++ fraction)) (e - fraction.length)

/-- The float that a text stands for. -/
def readFloat (cs : List Char) : Option Float :=
  let (minus, rest) := readSign cs
  (readMagnitude rest).map fun x => if minus then -x else x

end Decimal
end SyntaxGraph
