import Guion.Session

/-!
# Reports

What is written when a file cannot be run: what was being done, and the causes, outermost first.
-/

set_option autoImplicit false

namespace Guion.CommandLine

/-- Why a file could not be read. -/
inductive ReadFailure where
  | notFound
  | isDirectory
  | notDirectory
  | nameTooLong
  | invalidText
  | other (message : String)
deriving Repr, DecidableEq

/-- The message of a read failure. -/
def ReadFailure.message : ReadFailure → String
  | .notFound => "No such file or directory (os error 2)"
  | .isDirectory => "Is a directory (os error 21)"
  | .notDirectory => "Not a directory (os error 20)"
  | .nameTooLong => "File name too long (os error 36)"
  | .invalidText => "stream did not contain valid UTF-8"
  | .other message => message

/-- Why running a file failed. -/
inductive Failure where
  | unreadable (file : String) (cause : ReadFailure)
  | failed (file : String) (cause : ScriptError)
deriving Repr, DecidableEq

namespace Failure

/-- What was being done. -/
def context : Failure → String
  | .unreadable file _ => "failed to read " ++ file
  | .failed file _ => "while running " ++ file

/-- The causes, outermost first.  A runtime error is also its own cause. -/
def causes : Failure → List String
  | .unreadable _ cause => [cause.message]
  | .failed _ (.runtime cause) => [(ScriptError.runtime cause).message, cause.message]
  | .failed _ cause => [cause.message]

end Failure

/-- The lines of `text`, the first after `first` and the others after `others`. -/
def indent (first others : String) (text : String) : String :=
  first ++ ("\n" ++ others).intercalate (text.splitOn "\n")

/-- The causes as lines: a single one indented, several numbered. -/
def renderCauses (causes : List String) : String :=
  match causes with
  | [cause] => indent "    " "    " cause ++ "\n"
  | _ => String.join (causes.mapIdx fun i cause =>
      indent ("    " ++ toString i ++ ": ") "       " cause ++ "\n")

/-- The report of a failure. -/
def Failure.report (failure : Failure) : String :=
  "Error: " ++ failure.context ++ "\n\nCaused by:\n" ++ renderCauses failure.causes

end Guion.CommandLine
