/-!
# The binary shape of a number

Numbers are IEEE doubles.  This module takes one apart into the integers that determine it, so
that everything said about its digits is said in exact arithmetic.
-/

set_option autoImplicit false

namespace Guion.Number

/-- What the bits of a double stand for.  A finite one is `mantissa * 2 ^ exponent`, negated when
`negative` is set. -/
inductive Binary where
  | nan
  | infinite (negative : Bool)
  | finite (negative : Bool) (mantissa : Nat) (exponent : Int)
deriving Repr, DecidableEq

/-- The smallest mantissa of a normal double. -/
def hiddenBit : Nat := Nat.pow 2 52

/-- The exponent shared by all subnormal doubles and the smallest normal ones. -/
def leastExponent : Int := -1074

/-- The number of biased exponents.  The largest one marks infinities and what is no number. -/
def exponentRange : Nat := Nat.pow 2 11

/-- Splits 64 bits into sign, biased exponent and fraction. -/
def Binary.ofBits (bits : Nat) : Binary :=
  let negative := bits / (hiddenBit * exponentRange) % 2 == 1
  let biased := bits / hiddenBit % exponentRange
  let fraction := bits % hiddenBit
  if biased = exponentRange - 1 then
    if fraction = 0 then .infinite negative else .nan
  else if biased = 0 then
    .finite negative fraction leastExponent
  else
    .finite negative (hiddenBit + fraction) (leastExponent + (biased - 1 : Nat))

/-- The shape of `x`. -/
def Binary.ofFloat (x : Float) : Binary := .ofBits x.toBits.toNat

end Guion.Number
