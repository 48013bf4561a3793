import Guion.Number.Layout
import Guion.Value.Basic

/-!
# Rendered values

Values as programs print them.  Strings have quotes only where they are properties of an object.
-/

set_option autoImplicit false

namespace Guion.Value

mutual

/-- The text of a value. -/
def render : Value → String
  | .null => "nulo"
  | .boolean value => if value then "verdadero" else "falso"
  | .number value => Number.plain value
  | .string value => value
  | .object _ properties => "\x7b" ++ ", ".intercalate (renderAll properties) ++ "\x7d"
  | .function closure =>
    "func " ++ closure.name.getD "" ++ "(" ++ ", ".intercalate closure.parameters ++ ")"
  | .native f => "func " ++ f.name ++ "(...)"
  | .returned value => value.render
  | .error cause => "Error: " ++ cause.message

/-- The text of each property. -/
def renderAll : List (String × Value) → List String
  | [] => []
  | (key, .string value) :: rest => (key ++ ": \"" ++ value ++ "\"") :: renderAll rest
  | (key, value) :: rest => (key ++ ": " ++ value.render) :: renderAll rest

end

end Guion.Value
