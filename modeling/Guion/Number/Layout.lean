import Guion.Number.Decimal

/-!
# Written numbers

Two written forms of a number share its shortest decimal.  The plain form is what programs print:
always positional, and without a point when the number is whole.  The literal form is what
rendered programs show: whole numbers keep `.0`, and very large or small ones have an exponent.
-/

set_option autoImplicit false

namespace Guion.Number

/-- The decisions that tell one written form from another. -/
structure Layout where
  /-- Digits written after a whole number. -/
  wholeSuffix : String
  /-- Numbers with their decimal point more than this many places right of the first digit have
  an exponent. -/
  maxPoint : Option Int
  /-- Numbers with their decimal point at or left of this place have an exponent. -/
  minPoint : Option Int

/-- Always positional, and a whole number has no point: `5`, `2.5`, `100000000000000000000`. -/
def Layout.plain : Layout := ⟨"", none, none⟩

/-- Positional from `0.0001` to below `10 ^ 16`, and a whole number ends in `.0`: `5.0`, `2.5`,
`1e16`, `1.5e-5`. -/
def Layout.literal : Layout := ⟨".0", some 16, some (-4)⟩

/-- The digits `ds` with the decimal point after the first `point` of them. -/
def Layout.positional (layout : Layout) (ds : List Char) (point : Int) : String :=
  if point ≤ 0 then
    "0." ++ String.ofList (List.replicate (-point).toNat '0' ++ ds)
  else if ds.length ≤ point.toNat then
    String.ofList (ds ++ List.replicate (point.toNat - ds.length) '0') ++ layout.wholeSuffix
  else
    String.ofList (ds.take point.toNat) ++ "." ++ String.ofList (ds.drop point.toNat)

/-- The digits `ds` with the decimal point after the first one, and an exponent. -/
def exponential (ds : List Char) (point : Int) : String :=
  let fraction := match ds.drop 1 with
    | [] => ""
    | rest => "." ++ String.ofList rest
  String.ofList (ds.take 1) ++ fraction ++ "e" ++ toString (point - 1)

/-- Whether a number with its decimal point at `point` is written with an exponent. -/
def Layout.hasExponent (layout : Layout) (point : Int) : Bool :=
  layout.maxPoint.any (· < point) || layout.minPoint.any (point ≤ ·)

/-- A positive decimal in this form. -/
def Layout.decimal (layout : Layout) (d : Decimal) : String :=
  let ds := digits d.coefficient
  let point := ds.length + d.exponent
  if layout.hasExponent point then exponential ds point else layout.positional ds point

/-- A number in this form. -/
def Layout.binary (layout : Layout) : Binary → String
  | .nan => "NaN"
  | .infinite negative => if negative then "-inf" else "inf"
  | .finite negative mantissa exponent =>
    let magnitude :=
      if mantissa = 0 then "0" ++ layout.wholeSuffix
      else layout.decimal (shortest mantissa exponent)
    if negative then "-" ++ magnitude else magnitude

/-- The form in which programs print `x`. -/
def plain (x : Float) : String := Layout.plain.binary (.ofFloat x)

/-- The form in which rendered programs show the literal `x`. -/
def literal (x : Float) : String := Layout.literal.binary (.ofFloat x)

end Guion.Number
