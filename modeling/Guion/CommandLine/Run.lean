import Guion.CommandLine.Options
import Guion.CommandLine.Report
import Guion.Text.Blank
import Guion.Text.Typed

/-!
# The command line

Runs files in one session, or the lines of standard input.  Everything is decided here; only
reading and writing are left to the program that calls it.
-/

set_option autoImplicit false

namespace Guion.CommandLine

/-- What a run of the command line leaves behind. -/
structure Outcome where
  code : Nat
  stdout : String
  stderr : String
deriving Repr, DecidableEq

/-- The name and version of the program. -/
def versionText : String := "lpp 0.1.0\n"

/-- A summary of the arguments. -/
def usageText : String :=
  "Usage: lpp [--max-call-depth N] [--max-nesting N] [--max-eval-depth N] [FILES]...\n"

/-- Text from the bytes of a file. -/
def decodeText (bytes : ByteArray) : Except ReadFailure String :=
  match String.fromUTF8? bytes with
  | some text => .ok text
  | none => .error .invalidText

/-- How a file can be had. -/
abbrev FileReader : Type := String → Except ReadFailure ByteArray

/-- Runs one file in a session. -/
def runFile (read : FileReader) (session : Session) (file : String) :
    Except Failure Unit × Session :=
  match read file >>= decodeText with
  | .error cause => (.error (.unreadable file cause), session)
  | .ok source =>
    let (result, session) := session.eval source
    match result with
    | .ok _ => (.ok (), session)
    | .error cause => (.error (.failed file cause), session)

/-- Runs files in order up to the first failure. -/
def runFiles (read : FileReader) (session : Session) : List String → Outcome
  | [] => ⟨0, session.output, ""⟩
  | file :: rest =>
    match runFile read session file with
    | (.ok (), session) => runFiles read session rest
    | (.error failure, session) => ⟨1, session.output, failure.report⟩

/-- What is shown for the outcome of a line: nothing for null. -/
def shown : Except ScriptError Value → String
  | .ok .null => ""
  | .ok value => value.render ++ "\n"
  | .error cause => cause.message ++ "\n"

/-- The word that ends a session at the prompt. -/
def quit : String := "salir"

/-- The session after a line and what the line writes, or nothing if the line ends the session. -/
def promptLine (session : Session) (line : String) : Option (String × Session) :=
  let source := Text.trim (Text.typed line)
  if source.isEmpty then some ("", session)
  else if source = quit then none
  else
    let (result, session) := session.eval source
    some (session.output ++ shown result, session.drained)

/-- Runs lines up to the one that ends the session, and yields what they write. -/
def promptLines (session : Session) (written : String) : List String → String
  | [] => written
  | line :: rest =>
    match promptLine session line with
    | none => written
    | some (text, session) => promptLines session (written ++ text) rest

/-- Runs the command line. -/
def run (read : FileReader) (clock : Nat → Int) (environment : List (String × String))
    (arguments : List String) (stdin : String) : Outcome :=
  match readRequest environment arguments with
  | .error mistake => ⟨2, "", "error: " ++ mistake.message ++ "\n\n" ++ usageText⟩
  | .ok .version => ⟨0, versionText, ""⟩
  | .ok .help => ⟨0, usageText, ""⟩
  | .ok (.run [] limits) =>
    ⟨0, promptLines (.start ⟨limits, clock⟩ none) "" (stdin.splitOn "\n"), ""⟩
  | .ok (.run files limits) => runFiles read (.start ⟨limits, clock⟩ none) files

end Guion.CommandLine
