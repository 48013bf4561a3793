/-!
# Ranges of characters

Sets of characters given by the code points they span.
-/

set_option autoImplicit false

namespace Guion.Text

/-- Spans of code points, both ends included, in order. -/
abbrev Ranges : Type := List (Nat × Nat)

/-- Whether a character lies in one of the spans. -/
def Ranges.contains (ranges : Ranges) (c : Char) : Bool :=
  ranges.any fun (low, high) => low ≤ c.toNat && c.toNat ≤ high

end Guion.Text
