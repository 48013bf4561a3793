/-!
# Limits

Bounds on recursion, so that a runaway program fails with an error instead of exhausting the
machine it runs on.
-/

set_option autoImplicit false

namespace Guion

/-- The three configurable bounds. -/
structure Limits where
  /-- Function calls inside one another. -/
  calls : Nat := 128
  /-- Nesting of sub-expressions accepted when reading.  Every operator of a chain such as
  `1 + 2 + 3` counts as one level. -/
  nesting : Nat := 64
  /-- Expressions and calls being evaluated at once, over all active calls. -/
  evaluation : Nat := 256
deriving Repr, DecidableEq, Inhabited

end Guion
