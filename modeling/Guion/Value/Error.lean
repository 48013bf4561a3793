/-!
# Runtime errors

What can go wrong while a program runs, and the wording of each.
-/

set_option autoImplicit false

namespace Guion

/-- The causes of failure at run time.  Kinds of values are given by their names. -/
inductive RuntimeError where
  | unresolvedName (name : String)
  | duplicateBinding (name : String)
  | constantAssignment (name : String)
  | typeMismatch (detail : String)
  | nonBooleanCondition (found : String)
  | notCallable (found : String)
  | arity (expected found : Nat)
  | divisionByZero
  | stackOverflow (limit : Nat)
  /-- A failure outside the program, such as of its output. -/
  | native (detail : String)
deriving Repr, DecidableEq, Inhabited

/-- The wording of an error. -/
def RuntimeError.message : RuntimeError → String
  | .unresolvedName name => "name error: '" ++ name ++ "' is not defined"
  | .duplicateBinding name => "name error: '" ++ name ++ "' is already declared in this scope"
  | .constantAssignment name => "name error: cannot assign to constant '" ++ name ++ "'"
  | .typeMismatch detail => "type error: " ++ detail
  | .nonBooleanCondition found => "type error: condition must be a boolean, found " ++ found
  | .notCallable found => "type error: " ++ found ++ " is not callable"
  | .arity expected found =>
    "arity error: expected at most " ++ toString expected ++ " arguments but got "
      ++ toString found
  | .divisionByZero => "division by zero"
  | .stackOverflow limit =>
    "stack overflow: nesting limit of " ++ toString limit ++ " reached"
  | .native detail => detail

end Guion
