import Guion.CommandLine.Run
import Std.Time

/-!
# The program

Reads what the command line needs, hands it over, and writes what comes back.
-/

set_option autoImplicit false

namespace Guion.CommandLine

/-- The contents of a file, or why it cannot be read. -/
def readFile (path : String) : IO (Except ReadFailure ByteArray) := do
  try
    return .ok (← IO.FS.readBinFile path)
  catch failure =>
    match failure with
    | .noFileOrDirectory .. => return .error .notFound
    | .inappropriateType _ code _ =>
      return .error (if code = 21 then .isDirectory else .notDirectory)
    | .invalidArgument _ _ "name too long" => return .error .nameTooLong
    | other => return .error (.other (toString other))

/-- The environment variables that set limits. -/
def readEnvironment : IO (List (String × String)) := do
  let found ← LimitName.all.mapM fun limit => do
    return (← IO.getEnv limit.variableName).map fun value => (limit.variableName, value)
  return found.filterMap id

/-- The clock in milliseconds since the epoch. -/
def readMilliseconds : IO Int := do
  return (← Std.Time.Timestamp.now).toMillisecondsSinceUnixEpoch.toInt

/-- Writes text at once. -/
def put (text : String) : IO Unit := do
  let stdout ← IO.getStdout
  stdout.putStr text
  stdout.flush

/-- Runs the lines of standard input as they come. -/
partial def prompt (session : Session) : IO Unit := do
  let line ← (← IO.getStdin).getLine
  unless line.isEmpty do
    let now ← readMilliseconds
    match promptLine (session.withClock fun _ => now) line with
    | none => return
    | some (text, session) =>
      put text
      prompt session

end Guion.CommandLine

open Guion.CommandLine in
/-- The entry point. -/
def main (arguments : List String) : IO UInt32 := do
  let environment ← readEnvironment
  let now ← readMilliseconds
  match readRequest environment arguments with
  | .ok (.run [] limits) =>
    prompt (.start ⟨limits, fun _ => now⟩ none)
    return 0
  | request =>
    let files := match request with
      | .ok (.run files _) => files
      | _ => []
    let contents ← files.mapM fun file => do return (file, ← readFile file)
    let read (file : String) := (contents.lookup file).getD (.error .notFound)
    let outcome := run read (fun _ => now) environment arguments ""
    put outcome.stdout
    (← IO.getStderr).putStr outcome.stderr
    return outcome.code.toUInt32
