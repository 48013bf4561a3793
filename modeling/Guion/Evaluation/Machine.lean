import Guion.Bounded
import Guion.Evaluation.Sink
import Guion.Limits
import Guion.Scope.Heap

/-!
# The machine

The state a program runs in, and the steps that evaluation is made of.  Both depth counters are
part of the state; the limits and the readings of the clock are fixed for a run.
-/

set_option autoImplicit false

namespace Guion

/-- What stays the same while a program runs. -/
structure Setting where
  limits : Limits
  /-- The readings of the clock in order, in milliseconds since the epoch.  Before it they are
  negative. -/
  clock : Nat → Int

/-- What a program changes while it runs. -/
structure Machine where
  heap : Heap
  /-- The identity of the next object or function. -/
  fresh : Identity
  sink : Sink
  /-- Readings of the clock taken so far. -/
  readings : Nat
  /-- Expressions and calls being evaluated. -/
  depth : Nat
  /-- Calls being evaluated. -/
  calls : Nat

/-- Steps of a program. -/
abbrev Run (α : Type) : Type := Bounded RuntimeError Machine α

/-- A machine with no frames. -/
def Machine.empty (capacity : Option Nat) : Machine := ⟨.empty, 0, .empty capacity, 0, 0, 0⟩

namespace Run

variable {α : Type}

/-- Adds a frame. -/
def newFrame (frame : Frame) : Run FrameId :=
  modifyGet fun s => (s.heap.size, { s with heap := s.heap.push frame })

/-- An identity not given before. -/
def newIdentity : Run Identity :=
  modifyGet fun s => (s.fresh, { s with fresh := s.fresh + 1 })

/-- The value of `name` as seen from `frame`. -/
def lookup (frame : FrameId) (name : String) : Run Value := do
  match (← get).heap.lookup frame name with
  | .ok value => return value
  | .error e => Bounded.fail e

/-- Declares `name` in `frame` and yields its value. -/
def declare (frame : FrameId) (name : String) (value : Value) (constant : Bool) : Run Value :=
  fun s =>
    match s.heap.declare frame name value constant with
    | .ok heap => .ok value { s with heap }
    | .error e => .error (.error e) s

/-- Gives `name` a new value and yields it. -/
def assign (frame : FrameId) (name : String) (value : Value) : Run Value := fun s =>
  match s.heap.assign frame name value with
  | .ok heap => .ok value { s with heap }
  | .error e => .error (.error e) s

/-- Writes `text`, or fails if the output takes no more. -/
def write (text : String) : Run Unit := do
  if (← get).sink.accepts text then
    modify fun s => { s with sink := s.sink.append text }
  else Bounded.fail (.native "I/O error: output limit reached")

/-- The next reading of the clock. -/
def readClock (setting : Setting) : Run Int :=
  modifyGet fun s => (setting.clock s.readings, { s with readings := s.readings + 1 })

/-- Counts `act` as one more expression or call being evaluated. -/
def nested (limits : Limits) (act : Run α) : Run α := do
  if limits.evaluation ≤ (← get).depth then
    Bounded.fail (.stackOverflow limits.evaluation)
  else
    modify fun s => { s with depth := s.depth + 1 }
    Bounded.ensuring (fun s => { s with depth := s.depth - 1 }) act

/-- Runs `act` if one more call may be evaluated. -/
def admitted (limits : Limits) (act : Run α) : Run α := do
  if limits.calls ≤ (← get).calls then
    Bounded.fail (.stackOverflow limits.calls)
  else act

/-- Counts `act` as one more call being evaluated. -/
def calling (act : Run α) : Run α := do
  modify fun s => { s with calls := s.calls + 1 }
  Bounded.ensuring (fun s => { s with calls := s.calls - 1 }) act

/-- Runs the steps to their outcome.  Steps that bound their own recursion by the depth still
allowed are never exhausted, so the last case is there for totality only. -/
def outcome (act : Run α) (s : Machine) : Except RuntimeError α × Machine :=
  match act s with
  | .ok a t => (.ok a, t)
  | .error (.error e) t => (.error e, t)
  | .error .exhausted t => (.error (.stackOverflow 0), t)

end Run

end Guion
