import Guion.Evaluation.Machine
import Guion.Program.Render
import Guion.Value.Render

/-!
# Operators, members and predefined functions

The parts of evaluation that need only values.
-/

set_option autoImplicit false

namespace Guion

/-- The operator applied to a value of the wrong kind. -/
def UnaryOp.mismatch (op : UnaryOp) (value : Value) : RuntimeError :=
  .typeMismatch ("cannot apply '" ++ op.render ++ "' to " ++ value.kind)

/-- The value of an operator applied to an operand. -/
def UnaryOp.apply : UnaryOp → Value → Except RuntimeError Value
  | .not, .boolean b => .ok (.boolean !b)
  | .negate, .number x => .ok (.number (-x))
  | op, value => .error (op.mismatch value)

/-- The operator applied to values of the wrong kinds. -/
def BinaryOp.mismatch (op : BinaryOp) (left right : Value) : RuntimeError :=
  .typeMismatch
    ("cannot apply '" ++ op.render ++ "' to " ++ left.kind ++ " and " ++ right.kind)

/-- The value of an operator between numbers. -/
def BinaryOp.ofNumbers : BinaryOp → Float → Float → Value
  | .add, x, y => .number (x + y)
  | .sub, x, y => .number (x - y)
  | .mul, x, y => .number (x * y)
  | .div, x, y => .number (x / y)
  | .equal, x, y => .boolean (x == y)
  | .notEqual, x, y => .boolean (x != y)
  | .less, x, y => .boolean (x < y)
  | .lessEqual, x, y => .boolean (x ≤ y)
  | .greater, x, y => .boolean (x > y)
  | .greaterEqual, x, y => .boolean (x ≥ y)

/-- The value of an operator between values.  Any two values can be compared for equality. -/
def BinaryOp.apply (op : BinaryOp) (left right : Value) : Except RuntimeError Value :=
  match op, left, right with
  | .equal, _, _ => .ok (.boolean (left.equals right))
  | .notEqual, _, _ => .ok (.boolean !(left.equals right))
  | .div, .number x, .number y =>
    if y == 0.0 then .error .divisionByZero else .ok (.number (x / y))
  | _, .number x, .number y => .ok (op.ofNumbers x y)
  | _, _, _ => .error (op.mismatch left right)

/-- The property key that a value stands for. -/
def Value.key : Value → Except RuntimeError String
  | .string text => .ok text
  | .number x => .ok (Number.plain x)
  | value => .error (.typeMismatch
      ("property key must be a string or a number, found " ++ value.kind))

/-- The property of a value; what an object does not have is null. -/
def Value.member (key : String) : Value → Except RuntimeError Value
  | .object _ properties => .ok ((Table.find? key properties).getD .null)
  | value => .error (.typeMismatch
      ("cannot read property '" ++ key ++ "' of " ++ value.kind))

namespace Run

/-- The value, or failure with the error. -/
def ofExcept {α : Type} : Except RuntimeError α → Run α
  | .ok a => return a
  | .error e => Bounded.fail e

/-- Writes the arguments separated by spaces, then a new line. -/
def print (arguments : List Value) : Run Value := do
  write (" ".intercalate (arguments.map Value.render))
  write "\n"
  return .null

/-- The time since the epoch, which a reading of the clock may not be before. -/
def elapsed : Int → Except RuntimeError Value
  | .ofNat milliseconds => .ok (.number (.ofNat milliseconds))
  | .negSucc _ =>
    .error (.native "cannot read the clock: second time provided was later than self")

theorem exists_of_elapsed {reading : Int} {value : Value} (h : elapsed reading = .ok value) :
    ∃ x, value = .number x := by
  cases reading with
  | ofNat milliseconds =>
    cases h
    exact ⟨_, rfl⟩
  | negSucc _ => cases h

/-- Calls a predefined function. -/
def callNative (setting : Setting) (function : Native) (arguments : List Value) : Run Value :=
  match function with
  | .imprimir => print arguments
  | .tiempo => do ofExcept (elapsed (← readClock setting))

end Run

end Guion
