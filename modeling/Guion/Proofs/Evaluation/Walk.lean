import Guion.Evaluation.Expression

/-!
# One walk over the forms of programs

Two evaluations of one program, under settings and with inner evaluations of their own, are built
from the same steps in the same order.  A relation between computations that holds between the
steps, and carries over from parts to sequences, therefore holds between the evaluations as soon as
it holds between the inner ones (`Relates.node`, `Relates.statements`).  This is the one walk over
the forms of expressions and statements; invariants of evaluation, and comparisons of evaluations,
are instances of it.

What a step may be asked for depends on what came up before: a relation may hold of a declaration
in a frame that the evaluation made itself and fail of one elsewhere.  The frames and values that
may come up form a `Realm`, and the relation takes a condition on the value that its two sides
yield.
-/

set_option autoImplicit false

namespace Guion

open Run

/-- The frames in which an evaluation goes on, those of them in which it declares names, and the
values that come up in it. -/
structure Realm where
  frame : FrameId → Prop
  own : FrameId → Prop
  value : Value → Prop
  frame_of_own : ∀ {i}, own i → frame i
  null : value .null
  boolean : ∀ b, value (.boolean b)
  number : ∀ x, value (.number x)
  string : ∀ text, value (.string text)
  function : ∀ {f : Closure}, value (.function f) ↔ frame f.frame
  object : ∀ {identity properties}, value (.object identity properties) ↔
    ∀ entry ∈ properties, value entry.2
  returned : ∀ {v}, value (.returned v) ↔ value v

namespace Realm

/-- The realm of all frames and values. -/
def all : Realm where
  frame _ := True
  own _ := True
  value _ := True
  frame_of_own := id
  null := trivial
  boolean _ := trivial
  number _ := trivial
  string _ := trivial
  function := Iff.rfl
  object := ⟨fun _ _ _ => trivial, fun _ => trivial⟩
  returned := Iff.rfl

variable (realm : Realm)

theorem unwrapped {v : Value} (h : realm.value v) : realm.value v.unwrapped := by
  cases v with
  | returned v => exact realm.returned.1 h
  | _ => exact h

theorem unary {op : UnaryOp} {v result : Value} (h : op.apply v = .ok result) :
    realm.value result := by
  unfold UnaryOp.apply at h
  split at h <;> cases h
  · exact realm.boolean _
  · exact realm.number _

theorem ofNumbers (op : BinaryOp) (x y : Float) : realm.value (op.ofNumbers x y) := by
  cases op with
  | add | sub | mul | div => exact realm.number _
  | _ => exact realm.boolean _

theorem binary {op : BinaryOp} {left right result : Value} (h : op.apply left right = .ok result) :
    realm.value result := by
  unfold BinaryOp.apply at h
  split at h
  · cases h
    exact realm.boolean _
  · cases h
    exact realm.boolean _
  · split at h <;> cases h
    exact realm.number _
  · cases h
    exact realm.ofNumbers op _ _
  · cases h

/-- The property of a value of the realm is one; what is missing is null. -/
theorem member {v result : Value} {key : String} (h : realm.value v)
    (read : v.member key = .ok result) : realm.value result := by
  cases v with
  | object identity properties =>
    cases read
    cases found : Table.find? key properties with
    | none => exact realm.null
    | some value => exact realm.object.1 h _ (Table.mem_of_find? found)
  | _ => cases read

theorem headD {arguments : List Value} (h : ∀ v ∈ arguments, realm.value v) :
    realm.value (arguments.headD .null) := by
  cases arguments with
  | nil => exact realm.null
  | cons v rest => exact h v List.mem_cons_self

end Realm

/-- What can be evaluated in a frame. -/
inductive Phrase where
  | program (p : Program)
  | statement (s : Statement)
  | expression (e : Expression)

/-- The evaluation of a phrase. -/
def Phrase.run (setting : Setting) (frame : FrameId) : Phrase → Run Value
  | .program p => Run.program setting frame p
  | .statement s => Run.statement (evaluate setting) frame s
  | .expression e => evaluate setting e frame

/-- A relation between computations, with a condition on the value that they yield, that the steps
of evaluation respect within a realm: it holds between the steps under one setting and under the
other, and between sequences of related parts. -/
structure Relates (realm : Realm) (setting setting' : Setting)
    (T : ∀ α : Type, (α → Prop) → Run α → Run α → Prop) : Prop where
  pure : ∀ {α : Type} {A : α → Prop} {a : α}, A a → T α A (pure a) (pure a)
  fail : ∀ {α : Type} {A : α → Prop} (cause : RuntimeError),
    T α A (Bounded.fail cause) (Bounded.fail cause)
  bind : ∀ {α β : Type} {A : α → Prop} {B : β → Prop} {p q : Run α} {f g : α → Run β},
    T α A p q → (∀ a, A a → T β B (f a) (g a)) → T β B (p >>= f) (q >>= g)
  newFrame : ∀ {i : FrameId}, realm.frame i →
    T FrameId realm.own (newFrame (.empty (some i))) (newFrame (.empty (some i)))
  newIdentity : T Identity (fun _ => True) newIdentity newIdentity
  lookup : ∀ {i : FrameId} (name : String), realm.frame i →
    T Value realm.value (lookup i name) (lookup i name)
  declare : ∀ {i : FrameId} {v : Value} (name : String) (constant : Bool), realm.own i →
    realm.value v → T Value realm.value (declare i name v constant) (declare i name v constant)
  assign : ∀ {i : FrameId} {v : Value} (name : String), realm.frame i → realm.value v →
    T Value realm.value (assign i name v) (assign i name v)
  write : ∀ text, T Unit (fun _ => True) (write text) (write text)
  readClock : T Int (fun _ => True) (readClock setting) (readClock setting')
  admitted : ∀ {α : Type} {A : α → Prop} {p q : Run α}, T α A p q →
    T α A (admitted setting.limits p) (admitted setting'.limits q)

namespace Relates

variable {realm : Realm} {setting setting' : Setting}
  {T : ∀ α : Type, (α → Prop) → Run α → Run α → Prop} {eval eval' : Evaluator}

section Inner

variable (C : Relates realm setting setting' T)
  (inner : ∀ e frame, realm.frame frame → T Value realm.value (eval e frame) (eval' e frame))

include C

theorem ofExcept {α : Type} {A : α → Prop} {result : Except RuntimeError α}
    (h : ∀ a, result = .ok a → A a) : T α A (ofExcept result) (ofExcept result) := by
  cases result with
  | ok a => exact C.pure (h a rfl)
  | error e => exact C.fail e

theorem closure {frame : FrameId} (inside : realm.frame frame) (name : Option String)
    (parameters : List Identifier) (body : Block) :
    T Value realm.value (closure frame name parameters body)
      (closure frame name parameters body) := by
  apply C.bind C.newIdentity
  intro _ _
  exact C.pure (realm.function.2 inside)

theorem bindParameters {frame : FrameId} (own : realm.own frame) (names : List String)
    {arguments : List Value} (allowed : ∀ v ∈ arguments, realm.value v) :
    T Unit (fun _ => True) (bindParameters frame names arguments)
      (bindParameters frame names arguments) := by
  induction names generalizing arguments with
  | nil => exact C.pure trivial
  | cons name names ih =>
    apply C.bind (C.declare name false own (realm.headD allowed))
    intro _ _
    exact ih fun v later => allowed v (List.mem_of_mem_tail later)

theorem callNative (function : Native) (arguments : List Value) :
    T Value realm.value (callNative setting function arguments)
      (callNative setting' function arguments) := by
  cases function with
  | imprimir =>
    apply C.bind (C.write _)
    intro _ _
    apply C.bind (C.write _)
    intro _ _
    exact C.pure realm.null
  | tiempo =>
    apply C.bind C.readClock
    intro _ _
    refine C.ofExcept fun v read => ?_
    obtain ⟨x, rfl⟩ := exists_of_elapsed read
    exact realm.number x

include inner

theorem optional {frame : FrameId} (inside : realm.frame frame) (value : Option Expression) :
    T Value realm.value (optional eval frame value) (optional eval' frame value) := by
  cases value with
  | none => exact C.pure realm.null
  | some e => exact inner e frame inside

theorem statement {frame : FrameId} (own : realm.own frame) (s : Statement) :
    T Value realm.value (statement eval frame s) (statement eval' frame s) := by
  have inside := realm.frame_of_own own
  cases s with
  | expression _ e => exact inner e frame inside
  | declaration _ name value constant =>
    apply C.bind (C.optional inner inside value)
    intro _ allowed
    exact C.declare _ _ own allowed
  | function _ name parameters body =>
    apply C.bind (C.closure inside _ parameters body)
    intro _ allowed
    exact C.declare _ _ own allowed
  | result _ value =>
    apply C.bind (C.optional inner inside value)
    intro _ allowed
    exact C.pure (realm.returned.2 allowed)

theorem statements {frame : FrameId} (own : realm.own frame) {last : Value}
    (allowed : realm.value last) (ss : List Statement) :
    T Value realm.value (statements eval frame last ss) (statements eval' frame last ss) := by
  induction ss generalizing last with
  | nil => exact C.pure allowed
  | cons s ss ih =>
    apply C.bind (C.statement inner own s)
    intro value allowed
    -- a returned value ends the sequence, any other is passed on
    cases value with
    | returned value => exact C.pure allowed
    | _ => exact ih allowed

theorem block {frame : FrameId} (inside : realm.frame frame) (body : Block) :
    T Value realm.value (block eval frame body) (block eval' frame body) := by
  apply C.bind (C.newFrame inside)
  intro _ own
  exact C.statements inner own realm.null _

theorem conditional {frame : FrameId} (inside : realm.frame frame) (condition : Expression)
    (consequence : Block) (alternative : Option Block) :
    T Value realm.value (conditional eval frame condition consequence alternative)
      (conditional eval' frame condition consequence alternative) := by
  apply C.bind (inner condition frame inside)
  intro value _
  cases value with
  | boolean holds =>
    cases holds with
    | true => exact C.block inner inside consequence
    | false =>
      cases alternative with
      | none => exact C.pure realm.null
      | some body => exact C.block inner inside body
  | _ => exact C.fail _

theorem values {frame : FrameId} (inside : realm.frame frame) (es : List Expression) :
    T (List Value) (fun vs => ∀ v ∈ vs, realm.value v) (values eval frame es)
      (values eval' frame es) := by
  induction es with
  | nil => exact C.pure nofun
  | cons e es ih =>
    apply C.bind (inner e frame inside)
    intro v allowed
    apply C.bind ih
    intro vs allowedAll
    exact C.pure (List.forall_mem_cons.2 ⟨allowed, allowedAll⟩)

theorem properties {frame : FrameId} (inside : realm.frame frame) (ps : List Property) :
    T (List (String × Value)) (fun entries => ∀ entry ∈ entries, realm.value entry.2)
      (properties eval frame ps) (properties eval' frame ps) := by
  induction ps with
  | nil => exact C.pure nofun
  | cons p ps ih =>
    obtain ⟨key, value⟩ := p
    -- the value is given by an expression or by the variable of that name
    cases value with
    | none =>
      apply C.bind (C.lookup _ inside)
      intro v allowed
      apply C.bind ih
      intro entries allowedAll
      exact C.pure (List.forall_mem_cons.2 ⟨allowed, allowedAll⟩)
    | some e =>
      apply C.bind (inner e frame inside)
      intro v allowed
      apply C.bind ih
      intro entries allowedAll
      exact C.pure (List.forall_mem_cons.2 ⟨allowed, allowedAll⟩)

end Inner

section Phrases

variable (C : Relates realm setting setting' T)
  (inner : ∀ e frame, realm.frame frame →
    T Value realm.value (evaluate setting e frame) (evaluate setting' e frame))

include C inner

theorem program {frame : FrameId} (own : realm.own frame) (p : Program) :
    T Value realm.value (program setting frame p) (program setting' frame p) := by
  apply C.bind (C.statements inner own realm.null p)
  intro _ allowed
  exact C.pure (realm.unwrapped allowed)

theorem phrase {frame : FrameId} (own : realm.own frame) (phrase : Phrase) :
    T Value realm.value (phrase.run setting frame) (phrase.run setting' frame) := by
  cases phrase with
  | program p => exact C.program inner own p
  | statement s => exact C.statement inner own s
  | expression e => exact inner e frame (realm.frame_of_own own)

end Phrases

section Node

variable (C : Relates realm setting setting' T)
  (inner : ∀ e frame, realm.frame frame → T Value realm.value (eval e frame) (eval' e frame))
  (bodies : ∀ frame ss, realm.own frame →
    T Value realm.value (calling (nested setting.limits (Run.statements eval frame .null ss)))
      (calling (nested setting'.limits (Run.statements eval' frame .null ss))))

include C

section

include bodies

theorem callClosure {function : Closure} (inside : realm.frame function.frame)
    {arguments : List Value} (allowed : ∀ v ∈ arguments, realm.value v) :
    T Value realm.value (callClosure setting.limits eval function arguments)
      (callClosure setting'.limits eval' function arguments) := by
  unfold Run.callClosure
  split
  · exact C.fail _
  -- the frame of the call, its parameters, then the body
  · apply C.admitted
    apply C.bind (C.newFrame inside)
    intro frame own
    apply C.bind (C.bindParameters own _ allowed)
    intro _ _
    apply C.bind (bodies frame _ own)
    intro _ allowed
    exact C.pure (realm.unwrapped allowed)

theorem call {callee : Value} (known : realm.value callee) {arguments : List Value}
    (allowed : ∀ v ∈ arguments, realm.value v) :
    T Value realm.value (call setting eval callee arguments)
      (call setting' eval' callee arguments) := by
  cases callee with
  | function function => exact C.callClosure bodies (realm.function.1 known) allowed
  | native function => exact C.callNative function arguments
  | _ => exact C.fail _

end

include inner

/-- Evaluations of an expression that is not a call are related when those of the expressions inside
it are. -/
theorem node_of_not_call {frame : FrameId} (inside : realm.frame frame) {e : Expression}
    (notCall : ∀ token callee arguments, e ≠ .call token callee arguments) :
    T Value realm.value (node setting eval frame e) (node setting' eval' frame e) := by
  cases e with
  | identifier name => exact C.lookup _ inside
  | integer _ value => exact C.pure (realm.number _)
  | float _ value => exact C.pure (realm.number _)
  | boolean _ value => exact C.pure (realm.boolean _)
  | string _ value => exact C.pure (realm.string _)
  | null _ => exact C.pure realm.null
  | unary _ op operand =>
    apply C.bind (inner operand frame inside)
    intro _ _
    exact C.ofExcept fun _ => realm.unary
  | binary _ op left right =>
    apply C.bind (inner left frame inside)
    intro _ _
    apply C.bind (inner right frame inside)
    intro _ _
    exact C.ofExcept fun _ => realm.binary
  | assign _ target value =>
    apply C.bind (inner value frame inside)
    intro _ allowed
    exact C.assign _ inside allowed
  | conditional _ condition consequence alternative =>
    exact C.conditional inner inside condition consequence alternative
  | function _ parameters body => exact C.closure inside none parameters body
  | call token callee arguments => exact absurd rfl (notCall token callee arguments)
  | member _ object property computed =>
    apply C.bind (inner object frame inside)
    intro _ known
    cases computed with
    | true =>
      apply C.bind (inner property frame inside)
      intro _ _
      apply C.bind (C.ofExcept (A := fun _ => True) fun _ _ => trivial)
      intro _ _
      exact C.ofExcept fun _ => realm.member known
    | false =>
      apply C.bind (C.pure (A := fun _ => True) trivial)
      intro _ _
      exact C.ofExcept fun _ => realm.member known
  | object _ ps =>
    apply C.bind (C.properties inner inside ps)
    intro entries allowed
    apply C.bind C.newIdentity
    intro _ _
    refine C.pure (realm.object.2 fun entry known => ?_)
    exact allowed entry (Table.mem_of_mem_ofList known)

include bodies

/-- Evaluations of an expression are related when those of the expressions inside it and those of
bodies of functions are. -/
theorem node {frame : FrameId} (inside : realm.frame frame) (e : Expression) :
    T Value realm.value (node setting eval frame e) (node setting' eval' frame e) := by
  cases e with
  | call _ callee arguments =>
    apply C.bind (inner callee frame inside)
    intro _ known
    apply C.bind (C.values inner inside arguments)
    intro _ allowed
    exact C.call bodies known allowed
  | _ => exact C.node_of_not_call inner inside (fun _ _ _ => nofun)

end Node

end Relates

end Guion
