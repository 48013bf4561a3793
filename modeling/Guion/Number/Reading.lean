/-!
# Reading numbers

Decimal text to integers and to the nearest double.  The grammar of the latter is an optional sign
followed by digits with an optional fraction and an optional exponent, at least one digit before
the exponent, or by one of the names `inf`, `infinity` and `nan` in any case.
-/

set_option autoImplicit false

namespace Guion.Number

/-- Decimal digits are the ASCII ones. -/
def isDigit (c : Char) : Bool := '0' ≤ c && c ≤ '9'

/-- The natural number that a run of digits spells. -/
def ofDigits (ds : List Char) : Nat := ds.foldl (fun n c => 10 * n + (c.toNat - '0'.toNat)) 0

/-- Splits an optional sign off. -/
def splitSign : List Char → Bool × List Char
  | '-' :: cs => (true, cs)
  | '+' :: cs => (false, cs)
  | cs => (false, cs)

/-- Reads an integer of 64 bits: digits after an optional sign. -/
def readInteger? (text : String) : Option Int :=
  let (negative, ds) := splitSign text.toList
  let magnitude := ofDigits ds
  if ds = [] ∨ !ds.all isDigit then none
  else if negative then if magnitude ≤ Nat.pow 2 63 then some (-(magnitude : Int)) else none
  else if magnitude < Nat.pow 2 63 then some magnitude else none

/-- The double nearest to `coefficient * 10 ^ exponent`.  Powers far outside the range of doubles
are not computed. -/
def nearest (coefficient : Nat) (exponent : Int) : Float :=
  let magnitude := (Nat.toDigits 10 coefficient).length + exponent
  if coefficient = 0 ∨ magnitude < -400 then 0.0
  else if magnitude > 400 then 1.0 / 0.0
  else if exponent < 0 then .ofScientific coefficient true exponent.natAbs
  else .ofScientific coefficient false exponent.toNat

/-- The exponent that follows the digits, zero when there is none. -/
def readExponent? : List Char → Option Int
  | [] => some 0
  | c :: cs =>
    if c = 'e' ∨ c = 'E' then
      let (negative, ds) := splitSign cs
      if ds ≠ [] ∧ ds.all isDigit then
        some (if negative then -(ofDigits ds : Int) else ofDigits ds)
      else none
    else none

/-- Reads an unsigned decimal. -/
def readUnsigned? (cs : List Char) : Option Float :=
  let whole := cs.takeWhile isDigit
  let (fraction, rest) := match cs.dropWhile isDigit with
    | '.' :: r => (r.takeWhile isDigit, r.dropWhile isDigit)
    | r => ([], r)
  if whole = [] ∧ fraction = [] then none
  else
    (readExponent? rest).map fun e =>
      nearest (ofDigits (whole ++ fraction)) (e - fraction.length)

/-- Reads the name of a value that is no finite number. -/
def readName? (cs : List Char) : Option Float :=
  match String.ofList (cs.map Char.toLower) with
  | "inf" | "infinity" => some (1.0 / 0.0)
  | "nan" => some (0.0 / 0.0)
  | _ => none

/-- Reads a number, if `text` is one. -/
def read? (text : String) : Option Float :=
  let (negative, cs) := splitSign text.toList
  ((readName? cs).or (readUnsigned? cs)).map fun x => if negative then -x else x

end Guion.Number
