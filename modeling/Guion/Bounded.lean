/-!
# Bounded computations

Reading a program and running it are both stateful, can fail, and recur to a depth that no
single piece of data bounds.  A bounded computation threads a state, keeps that state when it
fails, and tells a failure of the domain apart from running out of an explicit bound.  Functions
that compute their own bound never show the second outcome.
-/

set_option autoImplicit false

namespace Guion

/-- Why a computation stopped before yielding a result. -/
inductive Stop (ε : Type) where
  /-- A failure of the domain. -/
  | error (cause : ε)
  /-- The explicit bound on recursion ran out. -/
  | exhausted

/-- Computations over the state `σ` that fail with `ε` or exhaust their bound.  The state reached
is kept in both cases. -/
abbrev Bounded (ε σ α : Type) : Type := EStateM (Stop ε) σ α

namespace Bounded

variable {ε σ α : Type}

/-- The computation that has no bound left. -/
def exhausted : Bounded ε σ α := throw .exhausted

/-- Fails with `cause`. -/
def fail (cause : ε) : Bounded ε σ α := throw (.error cause)

/-- Runs `act` and then changes the state by `after`, however `act` ends. -/
def ensuring (after : σ → σ) (act : Bounded ε σ α) : Bounded ε σ α := fun s =>
  match act s with
  | .ok a t => .ok a (after t)
  | .error e t => .error e (after t)

/-- Repeats `item` until it yields nothing and joins what it yielded before. -/
def collect (item : Bounded ε σ (Option (List α))) : Nat → Bounded ε σ (List α)
  | 0 => exhausted
  | n + 1 => do
    match ← item with
    | none => return []
    | some found => return found ++ (← collect item n)

end Bounded

end Guion
