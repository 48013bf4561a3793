import Guion.Evaluation.Expression
import Guion.Parser.Statement

/-!
# Sessions

Source texts run one after the other in a global frame that persists.  A failed one leaves the
session as usable as before, and one with syntax errors does not run at all.
-/

set_option autoImplicit false

namespace Guion

/-- Why a source text yielded no value. -/
inductive ScriptError where
  /-- Every syntax error found. -/
  | malformed (errors : List SyntaxError)
  | runtime (cause : RuntimeError)
deriving Repr, DecidableEq

/-- The message of an error, with a line for each syntax error. -/
def ScriptError.message : ScriptError → String
  | .malformed errors => "\n".intercalate (errors.map SyntaxError.message)
  | .runtime cause => "runtime error: " ++ cause.message

/-- The outcome as a value, in which an error is a value too. -/
def Value.ofOutcome : Except RuntimeError Value → Value
  | .ok value => value
  | .error cause => .error cause

/-- A machine and the global frame of a session. -/
structure Session where
  setting : Setting
  globals : FrameId
  machine : Machine

namespace Session

/-- A session in which only the predefined names are bound. -/
def start (setting : Setting) (capacity : Option Nat) : Session :=
  let machine := Machine.empty capacity
  ⟨setting, machine.heap.size, { machine with heap := machine.heap.push .predefined }⟩

/-- Runs a program in the global frame. -/
def run (session : Session) (p : Program) : Except RuntimeError Value × Session :=
  let (result, machine) :=
    (Run.program session.setting session.globals p).outcome session.machine
  (result, { session with machine })

/-- Reads `source` and runs it, unless it has syntax errors. -/
def eval (session : Session) (source : String) : Except ScriptError Value × Session :=
  let parsed := parse session.setting.limits.nesting source
  match parsed.errors with
  | [] =>
    let (result, session) := session.run parsed.program
    (result.mapError .runtime, session)
  | errors => (.error (.malformed errors), session)

/-- The value of a global name. -/
def lookup (session : Session) (name : String) : Except RuntimeError Value :=
  session.machine.heap.lookup session.globals name

/-- The text written since it was last taken. -/
def output (session : Session) : String := session.machine.sink.pending

/-- The session after its output was taken. -/
def drained (session : Session) : Session :=
  { session with machine := { session.machine with sink := session.machine.sink.drained } }

/-- The session with other readings of the clock. -/
def withClock (session : Session) (clock : Nat → Int) : Session :=
  { session with setting := { session.setting with clock } }

end Session

/-- The value of a program run by itself. -/
def Program.evaluate (setting : Setting) (p : Program) : Value :=
  .ofOutcome ((Session.start setting none).run p).1

end Guion
