import Guion.Limits
import Guion.Number.Reading

/-!
# Options

What the arguments and the environment of the command line ask for.  Arguments are read from left
to right and the first mistake counts; the environment gives only limits that no argument gave.
-/

set_option autoImplicit false

namespace Guion.CommandLine

/-- The limits that can be set. -/
inductive LimitName where
  | calls
  | nesting
  | evaluation
deriving Repr, DecidableEq

namespace LimitName

/-- All limits, in the order in which the environment is consulted. -/
def all : List LimitName := [.calls, .nesting, .evaluation]

/-- The flag that sets a limit. -/
def flag : LimitName → String
  | .calls => "--max-call-depth"
  | .nesting => "--max-nesting"
  | .evaluation => "--max-eval-depth"

/-- The environment variable that sets a limit. -/
def variableName : LimitName → String
  | .calls => "LPP_MAX_CALL_DEPTH"
  | .nesting => "LPP_MAX_NESTING"
  | .evaluation => "LPP_MAX_EVAL_DEPTH"

/-- The limit that a flag sets. -/
def ofFlag? (flag : String) : Option LimitName := all.find? (·.flag = flag)

/-- Sets a limit. -/
def set (limits : Limits) (value : Nat) : LimitName → Limits
  | .calls => { limits with calls := value }
  | .nesting => { limits with nesting := value }
  | .evaluation => { limits with evaluation := value }

end LimitName

/-- Mistakes in the use of the command line. -/
inductive UsageError where
  | unknownFlag (argument : String)
  | missingValue (flag : String)
  | unexpectedValue (flag : String)
  | repeatedFlag (flag : String)
  | badLimit (name value : String)
  | emptyFile
deriving Repr, DecidableEq

/-- The message of a mistake. -/
def UsageError.message : UsageError → String
  | .unknownFlag argument => "unexpected argument '" ++ argument ++ "'"
  | .missingValue flag => "a value is required for '" ++ flag ++ "'"
  | .unexpectedValue flag => "unexpected value for '" ++ flag ++ "'"
  | .repeatedFlag flag => "the argument '" ++ flag ++ "' cannot be used multiple times"
  | .badLimit name value => "invalid value '" ++ value ++ "' for '" ++ name ++ "'"
  | .emptyFile => "a file name cannot be empty"

/-- What to do. -/
inductive Request where
  | version
  | help
  /-- Run the files in order, or read standard input when there are none. -/
  | run (files : List String) (limits : Limits)
deriving Repr, DecidableEq

/-- What the arguments gave so far. -/
structure Given where
  files : List String
  limits : List (LimitName × Nat)
deriving Repr, DecidableEq

/-- Reads a limit: digits after an optional plus sign, below `2 ^ 64`. -/
def readLimit? (text : String) : Option Nat :=
  let ds := match text.toList with
    | '+' :: ds => ds
    | ds => ds
  if ds ≠ [] ∧ ds.all Number.isDigit ∧ Number.ofDigits ds < Nat.pow 2 64 then
    some (Number.ofDigits ds)
  else none

/-- Adds a file. -/
def Given.addFile (given : Given) (file : String) : Except UsageError Given :=
  if file.isEmpty then .error .emptyFile else .ok { given with files := given.files ++ [file] }

/-- Adds a limit, which may be given only once. -/
def Given.addLimit (given : Given) (limit : LimitName) (value : String) :
    Except UsageError Given :=
  match readLimit? value, given.limits.lookup limit with
  | none, _ => .error (.badLimit limit.flag value)
  | some _, some _ => .error (.repeatedFlag limit.flag)
  | some n, none => .ok { given with limits := given.limits ++ [(limit, n)] }

/-- The shapes an argument can have while flags are read. -/
inductive Argument where
  /-- `--`, after which all arguments are files. -/
  | separator
  /-- `--name` or `--name=value`, the name with its dashes. -/
  | long (name : String) (value : Option String)
  /-- One dash and at least one letter. -/
  | short (letter : Char)
  | file (name : String)
deriving Repr, DecidableEq

/-- The shape of an argument.  A single dash is a file. -/
def Argument.ofString (argument : String) : Argument :=
  match argument.toList with
  | ['-', '-'] => .separator
  | '-' :: '-' :: cs =>
    let name := "--" ++ String.ofList (cs.takeWhile (· ≠ '='))
    match cs.dropWhile (· ≠ '=') with
    | [] => .long name none
    | _ :: value => .long name (some (String.ofList value))
  | '-' :: c :: _ => .short c
  | _ => .file argument

/-- What the arguments ask for, or the limits and files they give. -/
inductive Reading where
  | request (request : Request)
  | given (given : Given)
deriving Repr, DecidableEq

/-- Reads files only. -/
def readFiles (given : Given) (arguments : List String) : Except UsageError Reading := do
  return .given (← arguments.foldlM Given.addFile given)

/-- Reads arguments from left to right.  The value of the flag `pending`, if any, comes first, and
has to look like a file. -/
def readArguments (pending : Option LimitName) (given : Given) :
    List String → Except UsageError Reading
  | [] =>
    match pending with
    | none => .ok (.given given)
    | some limit => .error (.missingValue limit.flag)
  | argument :: rest =>
    match pending, Argument.ofString argument with
    | some limit, .file value => do readArguments none (← given.addLimit limit value) rest
    | some limit, _ => .error (.missingValue limit.flag)
    | none, .separator => readFiles given rest
    | none, .file name => do readArguments none (← given.addFile name) rest
    | none, .short 'V' => .ok (.request .version)
    | none, .short 'h' => .ok (.request .help)
    | none, .short _ => .error (.unknownFlag argument)
    | none, .long "--version" none => .ok (.request .version)
    | none, .long "--help" none => .ok (.request .help)
    | none, .long "--version" (some _) => .error (.unexpectedValue "--version")
    | none, .long "--help" (some _) => .error (.unexpectedValue "--help")
    | none, .long name value =>
      match LimitName.ofFlag? name, value with
      | none, _ => .error (.unknownFlag argument)
      | some limit, some value => do readArguments none (← given.addLimit limit value) rest
      | some limit, none => readArguments (some limit) given rest

/-- Adds the limit that the environment gives, unless it was given before. -/
def Given.addVariable (environment : List (String × String)) (given : Given)
    (limit : LimitName) : Except UsageError Given :=
  match given.limits.lookup limit, environment.lookup limit.variableName with
  | none, some value =>
    match readLimit? value with
    | some n => .ok { given with limits := given.limits ++ [(limit, n)] }
    | none => .error (.badLimit limit.variableName value)
  | _, _ => .ok given

/-- What arguments and environment ask for. -/
def readRequest (environment : List (String × String)) (arguments : List String) :
    Except UsageError Request := do
  match ← readArguments none ⟨[], []⟩ arguments with
  | .request request => return request
  | .given given =>
    let given ← LimitName.all.foldlM (Given.addVariable environment) given
    let limits := given.limits.foldl (fun limits (name, value) => name.set limits value) {}
    return .run given.files limits

end Guion.CommandLine
