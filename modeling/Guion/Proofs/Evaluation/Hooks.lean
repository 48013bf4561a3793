import Guion.Proofs.Evaluation.Termination

/-!
# Evaluation with hooks

What happens while a program runs is stated with an evaluation that does something besides at some
of its steps: it checks a counter, asserts what should hold where a function is entered, or looks at
a value on its way, and stops where something is not as it should be.  There is one such evaluation,
which takes what it does besides as its argument (`Hooks`); with hooks that do nothing it is the
evaluation itself (`Hooks.run_plain`).

Hooks around levels and calls see the counters only.  What is known of the counters differs from one
place of an evaluation to the next (`Course`).  Hooks that do not show at any of these places, with
what is known there, do not show at all (`Hooks.Inert.agrees_run`).
-/

set_option autoImplicit false

namespace Guion

open Run Bounded

variable {α β : Type}

/-- What an evaluation does at its steps. -/
structure Hooks where
  /-- Around an expression whose value is used. -/
  used : Run Value → Run Value
  /-- Around the statements of a block, a function or a program. -/
  settled : Run Value → Run Value
  /-- Around an expression and the level it is nested at. -/
  yielded : Expression → Run Value → Run Value
  /-- Around a call of a function of a program. -/
  entered : Run Value → Run Value
  /-- Admits a call. -/
  admitted : Run Value → Run Value
  /-- Counts the body of a function as a call. -/
  calling : Run Value → Run Value
  /-- Counts an expression or the body of a function as a level. -/
  nested : Run Value → Run Value

namespace Hooks

/-- What evaluation itself does, and nothing besides. -/
def plain (limits : Limits) : Hooks where
  used := id
  settled := id
  yielded _ := id
  entered := id
  admitted := Run.admitted limits
  calling := Run.calling
  nested := Run.nested limits

section Evaluation

variable (hooks : Hooks)

/-- The evaluation of expressions whose value is used. -/
def operand (eval : Evaluator) : Evaluator := fun e frame => hooks.used (eval e frame)

/-- The value of a statement.  An expression that is a statement by itself is not used. -/
def statement (eval : Evaluator) (frame : FrameId) : Statement → Run Value
  | .expression _ e => eval e frame
  | s => Run.statement (hooks.operand eval) frame s

/-- The value of the last statement, or the signal that stopped the sequence. -/
def sequence (eval : Evaluator) (frame : FrameId) (last : Value) : List Statement → Run Value
  | [] => return last
  | s :: rest => do
    match ← hooks.statement eval frame s with
    | .returned value => return .returned value
    | value => sequence eval frame value rest

/-- The value of statements that belong together. -/
def statements (eval : Evaluator) (frame : FrameId) (ss : List Statement) : Run Value :=
  hooks.settled (hooks.sequence eval frame .null ss)

/-- The value of a block. -/
def block (eval : Evaluator) (frame : FrameId) (body : Block) : Run Value := do
  let own ← newFrame (.empty (some frame))
  hooks.statements eval own body.statements

/-- The value of a conditional. -/
def conditional (eval : Evaluator) (frame : FrameId) (condition : Expression)
    (consequence : Block) (alternative : Option Block) : Run Value := do
  match ← hooks.operand eval condition frame with
  | .boolean true => hooks.block eval frame consequence
  | .boolean false =>
    match alternative with
    | some body => hooks.block eval frame body
    | none => return .null
  | value => Bounded.fail (.nonBooleanCondition value.kind)

/-- Calls a function of a program. -/
def callClosure (eval : Evaluator) (function : Closure) (arguments : List Value) : Run Value := do
  if function.parameters.length < arguments.length then
    Bounded.fail (.arity function.parameters.length arguments.length)
  else hooks.admitted do
    let frame ← newFrame (.empty (some function.frame))
    bindParameters frame function.parameters arguments
    let value ← hooks.calling (hooks.nested (hooks.statements eval frame function.body.statements))
    return value.unwrapped

variable (setting : Setting)

/-- Calls a value. -/
def call (eval : Evaluator) (callee : Value) (arguments : List Value) : Run Value :=
  match callee with
  | .function function => hooks.entered (hooks.callClosure eval function arguments)
  | value => Run.call setting eval value arguments

/-- The value of an expression, given the evaluation of those inside it.  Only conditionals and
calls run statements. -/
def node (eval : Evaluator) (frame : FrameId) : Expression → Run Value
  | .conditional _ condition consequence alternative =>
    hooks.conditional eval frame condition consequence alternative
  | .call _ callee arguments => do
    let function ← hooks.operand eval callee frame
    let arguments ← values (hooks.operand eval) frame arguments
    hooks.call setting eval function arguments
  | e => Run.node setting (hooks.operand eval) frame e

/-- The value of an expression, with a bound on the recursion. -/
def expression : Nat → Evaluator
  | 0 => fun _ _ => Bounded.exhausted
  | bound + 1 => fun e frame =>
    hooks.yielded e (hooks.nested (hooks.node setting (expression bound) frame e))

/-- The value of an expression. -/
def evaluate : Evaluator := fun e frame s =>
  hooks.expression setting (setting.limits.evaluation - s.depth + 1) e frame s

/-- The value of a phrase. -/
def run (frame : FrameId) : Phrase → Run Value
  | .program p => do
    let value ← hooks.statements (hooks.evaluate setting) frame p
    return value.unwrapped
  | .statement s => hooks.statement (hooks.evaluate setting) frame s
  | .expression e => hooks.evaluate setting e frame

end Evaluation

/-! ## Hooks around levels and calls only -/

/-- The hooks do nothing about values. -/
structure Blind (hooks : Hooks) : Prop where
  used : hooks.used = id
  settled : hooks.settled = id
  yielded : ∀ e, hooks.yielded e = id

namespace Blind

variable {hooks : Hooks} (blind : hooks.Blind)

include blind

theorem operand_eq (eval : Evaluator) : hooks.operand eval = eval := by
  funext e frame
  rw [operand, blind.used]
  rfl

theorem statement_eq (eval : Evaluator) (frame : FrameId) (s : Statement) :
    hooks.statement eval frame s = Run.statement eval frame s := by
  cases s with
  | expression _ e => rfl
  | _ => simp only [statement, blind.operand_eq]

theorem statements_eq (eval : Evaluator) (frame : FrameId) (ss : List Statement) :
    hooks.statements eval frame ss = Run.statements eval frame .null ss := by
  have sequence_eq (last : Value) :
      hooks.sequence eval frame last ss = Run.statements eval frame last ss := by
    -- for every last value, since each statement gives the next one
    induction ss generalizing last with
    | nil => rfl
    | cons s ss ih =>
      show (hooks.statement eval frame s >>= _) = (Run.statement eval frame s >>= _)
      rw [blind.statement_eq]
      refine bind_congr fun v => ?_
      cases v with
      | returned v => rfl
      | _ => exact ih _
  rw [statements, blind.settled, sequence_eq]
  rfl

theorem conditional_eq (eval : Evaluator) (frame : FrameId) (condition : Expression)
    (consequence : Block) (alternative : Option Block) :
    hooks.conditional eval frame condition consequence alternative =
      Run.conditional eval frame condition consequence alternative := by
  have block_eq (body : Block) : hooks.block eval frame body = Run.block eval frame body := by
    simp only [block, Run.block, blind.statements_eq]
  show (hooks.operand eval condition frame >>= _) = (eval condition frame >>= _)
  rw [blind.operand_eq]
  refine bind_congr fun v => ?_
  cases v with
  | boolean holds =>
    cases holds with
    | true => exact block_eq consequence
    | false =>
      cases alternative with
      | none => rfl
      | some body => exact block_eq body
  | _ => rfl

/-- Only calls are evaluated otherwise. -/
theorem node_of_not_call (setting : Setting) (eval : Evaluator) (frame : FrameId) {e : Expression}
    (notCall : ∀ token callee arguments, e ≠ .call token callee arguments) :
    hooks.node setting eval frame e = Run.node setting eval frame e := by
  cases e with
  | call token callee arguments => exact absurd rfl (notCall token callee arguments)
  | conditional _ _ _ _ => exact blind.conditional_eq ..
  | _ => simp only [node, blind.operand_eq]

end Blind

theorem blind_plain (limits : Limits) : (plain limits).Blind := ⟨rfl, rfl, fun _ => rfl⟩

section Plain

variable (setting : Setting)

theorem call_plain (eval : Evaluator) (callee : Value) (arguments : List Value) :
    (plain setting.limits).call setting eval callee arguments =
      Run.call setting eval callee arguments := by
  cases callee with
  | function function =>
    show (plain setting.limits).callClosure eval function arguments =
      Run.callClosure setting.limits eval function arguments
    rw [callClosure, Run.callClosure]
    split
    · rfl
    · refine congrArg (Run.admitted setting.limits) ?_
      refine bind_congr fun own => bind_congr fun _ => ?_
      rw [(blind_plain setting.limits).statements_eq]
      rfl
  | _ => rfl

theorem expression_plain (bound : Nat) :
    (plain setting.limits).expression setting bound = Run.expression setting bound := by
  have blind := blind_plain setting.limits
  induction bound with
  | zero => rfl
  | succ bound ih =>
    funext e frame
    show Run.nested setting.limits ((plain setting.limits).node setting
      ((plain setting.limits).expression setting bound) frame e) = _
    rw [ih]
    refine congrArg (Run.nested setting.limits) ?_
    cases e with
    | call _ callee arguments => simp only [node, Run.node, blind.operand_eq, call_plain]
    | _ => exact blind.node_of_not_call setting _ frame fun _ _ _ same => by cases same

/-- Evaluation that does nothing besides is evaluation. -/
theorem run_plain (frame : FrameId) (phrase : Phrase) :
    (plain setting.limits).run setting frame phrase = phrase.run setting frame := by
  have blind := blind_plain setting.limits
  have evaluate_eq : (plain setting.limits).evaluate setting = Run.evaluate setting := by
    funext e frame s
    rw [evaluate, expression_plain]
    rfl
  cases phrase with
  | program p => simp only [run, Phrase.run, Run.program, evaluate_eq, blind.statements_eq]
  | statement s => rw [run, evaluate_eq, blind.statement_eq, Phrase.run]
  | expression e => rw [run, evaluate_eq, Phrase.run]

end Plain

end Hooks

/-! ## Hooks that do not show -/

/-- From machines in `P`, `p` ends and `q` gives the same. -/
def Agrees (P : Machine → Prop) (p q : Run α) : Prop := ∀ s, P s → Ends s (p s) ∧ q s = p s

theorem Settles.agrees {P : Machine → Prop} {p : Run α} (h : Settles P p) : Agrees P p p :=
  fun s hs => ⟨h s hs, rfl⟩

/-- What is known of the counters of a machine, at some place of an evaluation. -/
structure Stage where
  holds : Machine → Prop
  kept : ∀ s t, Balanced s t → holds s → holds t

section Steps

variable {P Q : Machine → Prop} {p q : Run α}

theorem Agrees.mono (h : Agrees Q p q) (weaker : ∀ s, P s → Q s) : Agrees P p q :=
  fun s hs => h s (weaker s hs)

/-- What the first part gains, the rest may rely on. -/
theorem Agrees.gaining {f g : α → Run β} (first : Agrees P p q)
    (gained : ∀ s a t, P s → Balanced s t → p s = .ok a t → Q t)
    (rest : ∀ a, Agrees Q (f a) (g a)) : Agrees P (p >>= f) (q >>= g) := by
  intro s hs
  obtain ⟨ends, same⟩ := first s hs
  cases run : p s with
  | ok a t =>
    rw [run] at ends same
    cases ends with
    | ok kept =>
      obtain ⟨later, agreed⟩ := rest a t (gained s a t hs kept run)
      rw [bind_of_ok run, bind_of_ok same]
      exact ⟨later.after kept, agreed⟩
  | error stop t =>
    rw [run] at ends same
    rw [bind_of_error run, bind_of_error same]
    cases ends with
    | error kept => exact ⟨.error kept, rfl⟩

theorem Agrees.admitted {limits : Limits} (h : Agrees Q p q)
    (room : ∀ s, P s → s.calls < limits.calls → Q s) :
    Agrees P (admitted limits p) (admitted limits q) := by
  intro s hs
  rw [admitted_apply, admitted_apply]
  split
  · exact ⟨.error ⟨rfl, rfl⟩, rfl⟩
  · rename_i below
    exact h s (room s hs (Nat.lt_of_not_le below))

theorem Agrees.nested {limits : Limits} (h : Agrees Q p q)
    (inside : ∀ s, P s → s.depth < limits.evaluation → Q { s with depth := s.depth + 1 }) :
    Agrees P (nested limits p) (nested limits q) := by
  intro s hs
  rw [nested_apply, nested_apply]
  split
  · exact ⟨.error ⟨rfl, rfl⟩, rfl⟩
  · rename_i below
    obtain ⟨ends, same⟩ := h _ (inside s hs (Nat.not_le.1 below))
    refine ⟨ends.ensuring fun t kept => ⟨congrArg (· - 1) kept.depth, kept.calls⟩, ?_⟩
    simp only [Bounded.ensuring, same]

theorem Agrees.calling (h : Agrees Q p q)
    (inside : ∀ s, P s → Q { s with calls := s.calls + 1 }) :
    Agrees P (calling p) (calling q) := by
  intro s hs
  obtain ⟨ends, same⟩ := h _ (inside s hs)
  refine ⟨ends.ensuring fun t kept => ⟨kept.depth, congrArg (· - 1) kept.calls⟩, ?_⟩
  show ensuring _ q _ = ensuring _ p _
  simp only [Bounded.ensuring, same]

/-- Evaluation of what has no hooks agrees with itself. -/
theorem congruence_agrees (P : Stage) (setting : Setting) :
    Congruence setting setting fun _ => Agrees P.holds where
  pure a := ((invariant_settles P.kept setting).pure a).agrees
  fail cause := ((invariant_settles P.kept setting).fail cause).agrees
  bind first rest := first.gaining (fun s _ t hs kept _ => P.kept s t kept hs) rest
  newFrame frame := ((invariant_settles P.kept setting).newFrame frame).agrees
  newIdentity := (invariant_settles P.kept setting).newIdentity.agrees
  lookup frame name := ((invariant_settles P.kept setting).lookup frame name).agrees
  declare frame name value constant :=
    ((invariant_settles P.kept setting).declare frame name value constant).agrees
  assign frame name value := ((invariant_settles P.kept setting).assign frame name value).agrees
  write text := ((invariant_settles P.kept setting).write text).agrees
  readClock := (invariant_settles P.kept setting).readClock.agrees
  admitted h := h.admitted fun _ hs _ => hs

end Steps

/-- What is known of the counters at the places of an evaluation, with each bound on the recursion:
where an expression is evaluated, inside it, where a value is called, and in a call that was
admitted. -/
structure Course where
  outside : Nat → Stage
  inside : Nat → Stage
  entering : Nat → Stage
  called : Nat → Stage

/-- The hooks do not show at any place of the course. -/
structure Hooks.Inert (setting : Setting) (hooks : Hooks) (course : Course) : Prop
    extends hooks.Blind where
  bounded : ∀ s, ¬ (course.outside 0).holds s
  outside_of_inside : ∀ {bound s}, (course.inside bound).holds s → (course.outside bound).holds s
  outside_of_entering : ∀ {bound s}, (course.entering bound).holds s →
    (course.outside bound).holds s
  /-- A callee that has a value was evaluated below the limit on the depth. -/
  entering_of_inside : ∀ {bound s}, (course.inside bound).holds s →
    s.depth < setting.limits.evaluation → (course.entering bound).holds s
  expression : ∀ {bound} {p q : Run Value}, Agrees (course.inside bound).holds p q →
    Agrees (course.outside (bound + 1)).holds (Run.nested setting.limits p) (hooks.nested q)
  entered : ∀ {bound p q}, Agrees (course.entering bound).holds p q →
    Agrees (course.entering bound).holds p (hooks.entered q)
  admitted : ∀ {bound p q}, Agrees (course.called bound).holds p q →
    Agrees (course.entering bound).holds (Run.admitted setting.limits p) (hooks.admitted q)
  body : ∀ {bound p q}, Agrees (course.outside bound).holds p q →
    Agrees (course.called bound).holds (Run.calling (Run.nested setting.limits p))
      (hooks.calling (hooks.nested q))

/-- An expression that yields a value was evaluated below the limit on the depth. -/
theorem below_of_expression {setting : Setting} {bound : Nat} {e : Expression} {frame : FrameId}
    {v : Value} {s t : Machine} (h : expression setting bound e frame s = .ok v t) :
    s.depth < setting.limits.evaluation := by
  cases bound with
  | zero => cases h
  | succ bound =>
    have run : nested setting.limits (node setting (expression setting bound) frame e) s =
      .ok v t := h
    rw [nested_apply] at run
    split at run
    · cases run
    · rename_i below
      exact Nat.not_le.1 below

namespace Hooks.Inert

variable {setting : Setting} {hooks : Hooks} {course : Course}
  (inert : hooks.Inert setting course)

include inert

section Call

variable {bound : Nat} {eval eval' : Evaluator}
  (inner : ∀ e frame, Agrees (course.outside bound).holds (eval e frame) (eval' e frame))

include inner

theorem agrees_call (callee : Value) (arguments : List Value) :
    Agrees (course.entering bound).holds (Run.call setting eval callee arguments)
      (hooks.call setting eval' callee arguments) := by
  have C := congruence_agrees (course.entering bound) setting
  cases callee with
  | function function =>
    show Agrees _ (Run.callClosure setting.limits eval function arguments) _
    apply inert.entered
    unfold Run.callClosure Hooks.callClosure
    split
    · exact C.fail _
    -- that the call was admitted is known up to its body
    · have C' := congruence_agrees (course.called bound) setting
      apply inert.admitted
      apply C'.bind (C'.newFrame _)
      intro frame
      apply C'.bind (C'.bindParameters frame _ _)
      intro _
      rw [inert.statements_eq]
      apply C'.bind (inert.body ((congruence_agrees _ setting).statements inner frame .null _))
      intro _
      exact C'.pure _
  | native function => exact C.callNative function arguments
  | _ => exact C.fail _

end Call

theorem agrees_expression (bound : Nat) (e : Expression) (frame : FrameId) :
    Agrees (course.outside bound).holds (Run.expression setting bound e frame)
      (hooks.expression setting bound e frame) := by
  induction bound generalizing e frame with
  | zero =>
    -- no machine is on the course when the bound has run out
    intro s hs
    exact absurd hs (inert.bounded s)
  | succ bound ih =>
    have C := congruence_agrees (course.inside bound) setting
    have C' := congruence_agrees (course.entering bound) setting
    have inner (e : Expression) (frame : FrameId) :=
      (ih e frame).mono fun _ => inert.outside_of_inside
    show Agrees _ _ (hooks.yielded e (hooks.nested (hooks.node setting _ frame e)))
    rw [inert.yielded]
    refine inert.expression ?_
    cases e with
    | call _ callee arguments =>
      rw [Hooks.node, inert.operand_eq]
      -- once the callee has a value, more is known of the depth
      apply (inner callee frame).gaining (Q := (course.entering bound).holds)
      · intro s _ t hs kept run
        have below := below_of_expression run
        exact inert.entering_of_inside ((course.inside bound).kept s t kept hs)
          (kept.depth ▸ below)
      · intro function
        apply C'.bind (C'.values (fun e frame => (ih e frame).mono fun _ =>
          inert.outside_of_entering) frame arguments)
        intro arguments
        exact inert.agrees_call ih function arguments
    | _ =>
      rw [inert.node_of_not_call]
      · exact C.node_of_not_call inner frame (fun _ _ _ => nofun)
      · exact fun _ _ _ => nofun

/-- From machines where the course can be taken up, a phrase is evaluated as without the hooks. -/
theorem agrees_run (start : Stage) (begins : ∀ s, start.holds s →
      (course.outside (setting.limits.evaluation - s.depth + 1)).holds s)
    (frame : FrameId) (phrase : Phrase) :
    Agrees start.holds (phrase.run setting frame) (hooks.run setting frame phrase) := by
  have C := congruence_agrees start setting
  have inner (e : Expression) (frame : FrameId) :
      Agrees start.holds (Run.evaluate setting e frame) (hooks.evaluate setting e frame) :=
    fun s hs => inert.agrees_expression _ e frame s (begins s hs)
  cases phrase with
  | program p =>
    rw [Hooks.run, inert.statements_eq]
    apply C.bind (C.statements inner frame .null p)
    intro _
    exact C.pure _
  | statement s =>
    rw [Hooks.run, inert.statement_eq]
    exact C.statement inner frame s
  | expression e => exact inner e frame

end Hooks.Inert

end Guion
