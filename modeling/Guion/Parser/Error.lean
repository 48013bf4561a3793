import Guion.Token.Basic

/-!
# Syntax errors

What can be wrong with a source text, where it was found, and the wording of each.
-/

set_option autoImplicit false

namespace Guion

/-- What is wrong. -/
inductive SyntaxError.Fault where
  | unexpectedToken (expected : Token.Kind) (found : String)
  /-- An expression was due and the token found starts none. -/
  | noOperand (found : String)
  | illegalToken (text : String)
  | badIntegerLiteral (text : String)
  | badFloatLiteral (text : String)
  | invalidAssignmentTarget
  /-- A constant was declared without a value. -/
  | missingInitializer (name : String)
  | unterminatedBlock
  | nestingTooDeep (limit : Nat)
deriving Repr, DecidableEq, Inhabited

/-- The wording of a fault. -/
def SyntaxError.Fault.message : SyntaxError.Fault → String
  | .unexpectedToken expected found =>
    "expected '" ++ expected.render ++ "' but found '" ++ found ++ "'"
  | .noOperand found => "no parse function for token '" ++ found ++ "'"
  | .illegalToken text => "illegal token '" ++ text ++ "'"
  | .badIntegerLiteral text => "cannot parse integer literal: " ++ text
  | .badFloatLiteral text => "cannot parse floating point literal: " ++ text
  | .invalidAssignmentTarget => "invalid assignment target"
  | .missingInitializer name => "constant '" ++ name ++ "' must be initialized"
  | .unterminatedBlock => "unterminated block: expected '\x7d' before end of input"
  | .nestingTooDeep limit =>
    "expression nested too deeply (limit is " ++ toString limit ++ ")"

/-- A fault and where it was found. -/
structure SyntaxError where
  pos : Position
  fault : SyntaxError.Fault
deriving Repr, DecidableEq, Inhabited

/-- The full message of a syntax error. -/
def SyntaxError.message (e : SyntaxError) : String :=
  "syntax error: " ++ e.pos.render ++ ": " ++ e.fault.message

end Guion
