import Guion.Program.Basic
import Guion.Value.Error

/-!
# Values

What expressions evaluate to.  Objects and functions have an identity, given when they are made:
functions are told apart by it, and an object is equal to itself whatever it holds.
-/

set_option autoImplicit false

namespace Guion

/-- The place of a frame in the heap. -/
abbrev FrameId : Type := Nat

/-- What tells objects and functions of the same content apart. -/
abbrev Identity : Type := Nat

/-- A function of a program: its parameters, its body and the frame it was made in. -/
structure Closure where
  identity : Identity
  name : Option String
  parameters : List String
  body : Block
  frame : FrameId

/-- The predefined functions. -/
inductive Native where
  /-- Writes its arguments. -/
  | imprimir
  /-- Reads the clock. -/
  | tiempo
deriving Repr, DecidableEq, Inhabited

/-- The name of a predefined function. -/
def Native.name : Native → String
  | .imprimir => "imprimir"
  | .tiempo => "tiempo"

/-- Values. -/
inductive Value where
  | null
  | boolean (value : Bool)
  | number (value : Float)
  | string (value : String)
  /-- The properties are in the order of their keys. -/
  | object (identity : Identity) (properties : List (String × Value))
  | function (closure : Closure)
  | native (function : Native)
  /-- The signal of a `regresa` on its way to the enclosing call. -/
  | returned (value : Value)
  | error (cause : RuntimeError)

instance : Inhabited Value := ⟨.null⟩

namespace Value

/-- The name of the kind of a value. -/
def kind : Value → String
  | .null => "null"
  | .boolean _ => "boolean"
  | .number _ => "number"
  | .string _ => "string"
  | .object _ _ => "object"
  | .function _ | .native _ => "function"
  | .returned _ => "return"
  | .error _ => "error"

/-- The value is an error. -/
def isError : Value → Bool
  | .error _ => true
  | _ => false

/-- The value that a call yields for the last value of its body: a signal ends here. -/
def unwrapped : Value → Value
  | .returned value => value
  | value => value

mutual

/-- Equality of values.  Values of different kinds differ, a function equals only itself, and a
number that is not one differs from all. -/
def equals : Value → Value → Bool
  | .null, .null => true
  | .boolean a, .boolean b => a == b
  | .number a, .number b => a == b
  | .string a, .string b => a == b
  | .object i ps, .object j qs => i == j || equalsAll ps qs
  | .function f, .function g => f.identity == g.identity
  | .native f, .native g => f == g
  | .returned a, .returned b => a.equals b
  | .error a, .error b => a == b
  | _, _ => false

/-- Equality of properties: the same keys with equal values. -/
def equalsAll : List (String × Value) → List (String × Value) → Bool
  | [], [] => true
  | (k, v) :: ps, (l, w) :: qs => k == l && v.equals w && equalsAll ps qs
  | _, _ => false

end

end Value

end Guion
