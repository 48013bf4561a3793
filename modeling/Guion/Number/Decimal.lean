import Guion.Number.Binary

/-!
# Shortest decimals

A positive double `mantissa * 2 ^ exponent` is the rounding of every real in an interval around
it.  Its shortest decimal is the one with the fewest digits in that interval, the nearest of
those, and the upper one of two equally near.

The ends of the interval lie half way to the neighbouring doubles and belong to it when the
mantissa is even, as rounding goes to the even neighbour.  Below a power of two the neighbour is
only half as far.  All three points are integer multiples of a quarter of the last place, so they
are compared with decimals by multiplication of natural numbers alone.
-/

set_option autoImplicit false

namespace Guion.Number

/-- The decimal `coefficient * 10 ^ exponent`. -/
structure Decimal where
  coefficient : Nat
  exponent : Int
deriving Repr, DecidableEq

/-- The decimal digits of `n`, most significant first. -/
def digits (n : Nat) : List Char := Nat.toDigits 10 n

/-- Moves the zeros at the end of the coefficient into the exponent.  The first argument bounds
the number of zeros moved. -/
def Decimal.trim : Nat → Decimal → Decimal
  | 0, d => d
  | n + 1, d =>
    if d.coefficient ≠ 0 ∧ d.coefficient % 10 = 0 then
      trim n ⟨d.coefficient / 10, d.exponent + 1⟩
    else d

/-- The reals that round to one double, in quarters of its last place `2 ^ (exponent - 2)`. -/
structure Neighbourhood where
  low : Nat
  value : Nat
  high : Nat
  exponent : Int
  closed : Bool
deriving Repr, DecidableEq

/-- The neighbourhood of the double `mantissa * 2 ^ exponent`. -/
def Neighbourhood.of (mantissa : Nat) (exponent : Int) : Neighbourhood where
  low := if mantissa = hiddenBit ∧ exponent ≠ leastExponent then 4 * mantissa - 1
    else 4 * mantissa - 2
  value := 4 * mantissa
  high := 4 * mantissa + 2
  exponent := exponent - 2
  closed := mantissa % 2 == 0

/-- The factor `base ^ e` when `e` is positive, and one otherwise. -/
def scale (base : Nat) (e : Int) : Nat := Nat.pow base e.toNat

namespace Neighbourhood

/-- The whole part of the value counted in units of `10 ^ place`. -/
def units (n : Neighbourhood) (place : Int) : Nat :=
  n.value * scale 2 n.exponent * scale 10 (-place) / (scale 10 place * scale 2 (-n.exponent))

/-- The number of digits before the decimal point of the value; when there are none, minus the
number of zeros right after it. -/
def magnitude (n : Neighbourhood) : Int :=
  let shift : Nat := 330
  (digits (n.units (-shift))).length - shift

/-- Whether `c * 10 ^ place` lies in the neighbourhood. -/
def contains (n : Neighbourhood) (c : Nat) (place : Int) : Bool :=
  let point := c * scale 10 place * scale 2 (-n.exponent)
  let low := n.low * scale 2 n.exponent * scale 10 (-place)
  let high := n.high * scale 2 n.exponent * scale 10 (-place)
  if n.closed then low ≤ point && point ≤ high else low < point && point < high

/-- The upper of the two multiples of `10 ^ place` around the value is at least as near as the
lower one, `c`. -/
def upperNearer (n : Neighbourhood) (c : Nat) (place : Int) : Bool :=
  let unit := scale 10 place * scale 2 (-n.exponent)
  let value := n.value * scale 2 n.exponent * scale 10 (-place)
  (2 * c + 1) * unit ≤ 2 * value

/-- The multiple of `10 ^ place` in the neighbourhood that is nearest to the value, if any. -/
def onGrid? (n : Neighbourhood) (place : Int) : Option Decimal :=
  let c := n.units place
  match n.contains c place, n.contains (c + 1) place with
  | true, true => some ⟨if n.upperNearer c place then c + 1 else c, place⟩
  | true, false => some ⟨c, place⟩
  | false, true => some ⟨c + 1, place⟩
  | false, false => none

/-- The first decimal found on grids of ever more digits, starting at `place`.  Seventeen digits
always suffice, so the last grid searched needs no answer of its own. -/
def search (n : Neighbourhood) : Nat → Int → Decimal
  | 0, place => ⟨n.units place, place⟩
  | more + 1, place =>
    match n.onGrid? place with
    | some d => d
    | none => search n more (place - 1)

end Neighbourhood

/-- The shortest decimal that rounds to the positive double `mantissa * 2 ^ exponent`. -/
def shortest (mantissa : Nat) (exponent : Int) : Decimal :=
  let n := Neighbourhood.of mantissa exponent
  (n.search 17 (n.magnitude - 1)).trim 20

end Guion.Number
