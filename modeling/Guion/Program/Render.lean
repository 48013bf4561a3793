import Guion.Number.Layout
import Guion.Program.Basic

/-!
# Rendered programs

Every node as fully parenthesised source text.
-/

set_option autoImplicit false

namespace Guion

/-- The names of identifiers, separated by commas. -/
def Identifier.renderAll (names : List Identifier) : String :=
  ", ".intercalate (names.map Identifier.name)

/-- The spelling of an operator. -/
def UnaryOp.render : UnaryOp → String
  | .not => "!"
  | .negate => "-"

/-- The spelling of an operator. -/
def BinaryOp.render : BinaryOp → String
  | .add => "+"
  | .sub => "-"
  | .mul => "*"
  | .div => "/"
  | .equal => "=="
  | .notEqual => "!="
  | .less => "<"
  | .lessEqual => "<="
  | .greater => ">"
  | .greaterEqual => ">="

mutual

/-- The source text of an expression. -/
def Expression.render : Expression → String
  | .identifier name => name.name
  | .integer _ value => toString value
  | .float _ value => Number.literal value
  | .boolean _ value => if value then "verdadero" else "falso"
  | .string _ value => "\"" ++ value ++ "\""
  | .null _ => "nulo"
  | .unary _ op operand => "(" ++ op.render ++ operand.render ++ ")"
  | .binary _ op left right =>
    "(" ++ left.render ++ " " ++ op.render ++ " " ++ right.render ++ ")"
  | .assign _ target value => "(" ++ target.name ++ " = " ++ value.render ++ ")"
  | .conditional _ condition consequence alternative =>
    "si " ++ condition.render ++ " " ++ consequence.render ++ Block.renderAlternative alternative
  | .function _ parameters body =>
    "func(" ++ Identifier.renderAll parameters ++ ") " ++ body.render
  | .call _ callee arguments =>
    callee.render ++ "(" ++ ", ".intercalate (Expression.renderAll arguments) ++ ")"
  | .member _ object property computed =>
    if computed then object.render ++ "[" ++ property.render ++ "]"
    else object.render ++ "." ++ property.render
  | .object _ properties => "\x7b" ++ ", ".intercalate (Property.renderAll properties) ++ "\x7d"

/-- The source text of each expression. -/
def Expression.renderAll : List Expression → List String
  | [] => []
  | e :: es => e.render :: Expression.renderAll es

/-- The source text of an optional expression after `before`. -/
def Expression.renderAfter (before : String) : Option Expression → String
  | none => ""
  | some e => before ++ e.render

/-- The source text of a property. -/
def Property.render : Property → String
  | .mk key value => key.name ++ Expression.renderAfter ": " value

/-- The source text of each property. -/
def Property.renderAll : List Property → List String
  | [] => []
  | p :: ps => p.render :: Property.renderAll ps

/-- The source text of a block. -/
def Block.render : Block → String
  | .mk _ [] => "\x7b \x7d"
  | .mk _ (s :: ss) =>
    "\x7b " ++ " ".intercalate (s.render :: Statement.renderAll ss) ++ " \x7d"

/-- The source text of the `sino` branch, if any. -/
def Block.renderAlternative : Option Block → String
  | none => ""
  | some block => " sino " ++ block.render

/-- The source text of a statement. -/
def Statement.render : Statement → String
  | .declaration token name value _ =>
    token.text ++ " " ++ name.name ++ Expression.renderAfter " = " value ++ ";"
  | .result _ value => "regresa" ++ Expression.renderAfter " " value ++ ";"
  | .expression _ value => value.render
  | .function _ name parameters body =>
    "func " ++ name.name ++ "(" ++ Identifier.renderAll parameters ++ ") " ++ body.render

/-- The source text of each statement. -/
def Statement.renderAll : List Statement → List String
  | [] => []
  | s :: ss => s.render :: Statement.renderAll ss

end

/-- The source text of a program, one statement a line. -/
def Program.render (program : Program) : String :=
  "\n".intercalate (Statement.renderAll program)

end Guion
