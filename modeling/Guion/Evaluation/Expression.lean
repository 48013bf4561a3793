import Guion.Evaluation.Operators

/-!
# Evaluation

What programs mean.  Every way back into an expression goes through `Run.expression`, which counts
the depth, so the remaining depth bounds the recursion: `Run.evaluate` gives it a bound that
always suffices.  All other definitions take the evaluation of inner expressions as an argument.
-/

set_option autoImplicit false

namespace Guion

/-- The evaluation of an expression in a frame. -/
abbrev Evaluator : Type := Expression → FrameId → Run Value

namespace Run

/-- A new function made in `frame`. -/
def closure (frame : FrameId) (name : Option String) (parameters : List Identifier)
    (body : Block) : Run Value := do
  let identity ← newIdentity
  return .function ⟨identity, name, parameters.map Identifier.name, body, frame⟩

/-- The value of an optional expression, null when absent. -/
def optional (eval : Evaluator) (frame : FrameId) : Option Expression → Run Value
  | none => return .null
  | some e => eval e frame

/-- The value of a statement. -/
def statement (eval : Evaluator) (frame : FrameId) : Statement → Run Value
  | .expression _ e => eval e frame
  | .declaration _ name value constant => do
    let value ← optional eval frame value
    declare frame name.name value constant
  | .function _ name parameters body => do
    let value ← closure frame (some name.name) parameters body
    declare frame name.name value true
  | .result _ value => do
    let value ← optional eval frame value
    return .returned value

/-- The value of the last statement, or the signal that stopped the sequence; `last` if there is
no statement. -/
def statements (eval : Evaluator) (frame : FrameId) (last : Value) : List Statement → Run Value
  | [] => return last
  | s :: rest => do
    match ← statement eval frame s with
    | .returned value => return .returned value
    | value => statements eval frame value rest

/-- The value of a block, which has a frame of its own. -/
def block (eval : Evaluator) (frame : FrameId) (body : Block) : Run Value := do
  let own ← newFrame (.empty (some frame))
  statements eval own .null body.statements

/-- The value of a conditional. -/
def conditional (eval : Evaluator) (frame : FrameId) (condition : Expression)
    (consequence : Block) (alternative : Option Block) : Run Value := do
  match ← eval condition frame with
  | .boolean true => block eval frame consequence
  | .boolean false =>
    match alternative with
    | some body => block eval frame body
    | none => return .null
  | value => Bounded.fail (.nonBooleanCondition value.kind)

/-- The values of expressions, in order. -/
def values (eval : Evaluator) (frame : FrameId) : List Expression → Run (List Value)
  | [] => return []
  | e :: rest => do
    let value ← eval e frame
    return value :: (← values eval frame rest)

/-- Declares parameters with their arguments; missing arguments are null. -/
def bindParameters (frame : FrameId) : List String → List Value → Run Unit
  | [], _ => return ()
  | name :: names, arguments => do
    let _ ← declare frame name (arguments.headD .null) false
    bindParameters frame names arguments.tail

/-- Calls a function of a program. -/
def callClosure (limits : Limits) (eval : Evaluator) (function : Closure)
    (arguments : List Value) : Run Value := do
  if function.parameters.length < arguments.length then
    Bounded.fail (.arity function.parameters.length arguments.length)
  else admitted limits do
    let frame ← newFrame (.empty (some function.frame))
    bindParameters frame function.parameters arguments
    let value ← calling (nested limits (statements eval frame .null function.body.statements))
    return value.unwrapped

/-- Calls a value. -/
def call (setting : Setting) (eval : Evaluator) (callee : Value) (arguments : List Value) :
    Run Value :=
  match callee with
  | .function function => callClosure setting.limits eval function arguments
  | .native function => callNative setting function arguments
  | value => Bounded.fail (.notCallable value.kind)

/-- The properties of an object, in the order given; a key without a value stands for the
variable of that name. -/
def properties (eval : Evaluator) (frame : FrameId) : List Property → Run (List (String × Value))
  | [] => return []
  | .mk key value :: rest => do
    let value ← match value with
      | some e => eval e frame
      | none => lookup frame key.name
    return (key.name, value) :: (← properties eval frame rest)

/-- The value of an expression, given the evaluation of those inside it. -/
def node (setting : Setting) (eval : Evaluator) (frame : FrameId) : Expression → Run Value
  | .identifier name => lookup frame name.name
  | .integer _ value => return .number (.ofInt value)
  | .float _ value => return .number value
  | .boolean _ value => return .boolean value
  | .string _ value => return .string value
  | .null _ => return .null
  | .unary _ op operand => do
    let value ← eval operand frame
    ofExcept (op.apply value)
  | .binary _ op left right => do
    let a ← eval left frame
    let b ← eval right frame
    ofExcept (op.apply a b)
  | .assign _ target value => do
    let value ← eval value frame
    assign frame target.name value
  | .conditional _ condition consequence alternative =>
    conditional eval frame condition consequence alternative
  | .function _ parameters body => closure frame none parameters body
  | .call _ callee arguments => do
    let function ← eval callee frame
    let arguments ← values eval frame arguments
    call setting eval function arguments
  | .member _ object property computed => do
    let object ← eval object frame
    let key ←
      if computed then do ofExcept (← eval property frame).key
      else pure property.token.text
    ofExcept (object.member key)
  | .object _ ps => do
    let entries ← properties eval frame ps
    return .object (← newIdentity) (Table.ofList entries)

/-- The value of an expression, with a bound on the recursion. -/
def expression (setting : Setting) : Nat → Evaluator
  | 0 => fun _ _ => Bounded.exhausted
  | bound + 1 => fun e frame =>
    nested setting.limits (node setting (expression setting bound) frame e)

/-- The value of an expression.  The depth still allowed bounds the recursion. -/
def evaluate (setting : Setting) : Evaluator := fun e frame => do
  expression setting (setting.limits.evaluation - (← get).depth + 1) e frame

/-- The value of a program: that of its last statement, or of the `regresa` that ended it. -/
def program (setting : Setting) (frame : FrameId) (p : Program) : Run Value := do
  let value ← statements (evaluate setting) frame .null p
  return value.unwrapped

end Run

end Guion
