/-!
# Output

Where programs write.  A sink may have a capacity in bytes; a write that would exceed it fails as
a whole.
-/

set_option autoImplicit false

namespace Guion

/-- Text written and not yet taken, and how much was written in all. -/
structure Sink where
  capacity : Option Nat
  written : Nat
  pending : String
deriving Repr, DecidableEq, Inhabited

namespace Sink

/-- A sink to which nothing was written. -/
def empty (capacity : Option Nat) : Sink := ⟨capacity, 0, ""⟩

/-- Whether `text` can still be written.  Writing nothing never fails. -/
def accepts (sink : Sink) (text : String) : Bool :=
  text.isEmpty || sink.capacity.all (sink.written + text.utf8ByteSize ≤ ·)

/-- The sink after writing `text`. -/
def append (sink : Sink) (text : String) : Sink :=
  { sink with written := sink.written + text.utf8ByteSize, pending := sink.pending ++ text }

/-- The sink after its text was taken. -/
def drained (sink : Sink) : Sink := { sink with pending := "" }

end Sink

end Guion
