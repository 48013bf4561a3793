import Guion.Proofs.Evaluation.Walk

/-!
# What evaluation respects

A relation between computations that depends neither on the frames they work in nor on the values
they yield (`Congruence`) is respected by evaluation as soon as it is respected by the steps.  It is
walked with in the realm of all frames and values, through its sequels (`Sequel`): two computations
are taken together with everything that may follow them, so that what is known of a value can be
used where the relation itself has no place for it.

The body of a function runs with both counters raised, which a relation may depend on, so for it a
premise of its own is taken.
-/

set_option autoImplicit false

namespace Guion

open Run

/-- A relation between computations that steps respect: it holds between the steps of evaluation
under one setting and under the other, and between sequences of related parts. -/
structure Congruence (setting setting' : Setting) (T : ∀ α : Type, Run α → Run α → Prop) :
    Prop where
  pure : ∀ {α : Type} (a : α), T α (pure a) (pure a)
  fail : ∀ {α : Type} (cause : RuntimeError), T α (Bounded.fail cause) (Bounded.fail cause)
  bind : ∀ {α β : Type} {p q : Run α} {f g : α → Run β}, T α p q → (∀ a, T β (f a) (g a)) →
    T β (p >>= f) (q >>= g)
  newFrame : ∀ frame, T FrameId (newFrame frame) (newFrame frame)
  newIdentity : T Identity newIdentity newIdentity
  lookup : ∀ frame name, T Value (lookup frame name) (lookup frame name)
  declare : ∀ frame name value constant,
    T Value (declare frame name value constant) (declare frame name value constant)
  assign : ∀ frame name value, T Value (assign frame name value) (assign frame name value)
  write : ∀ text, T Unit (write text) (write text)
  readClock : T Int (readClock setting) (readClock setting')
  admitted : ∀ {α : Type} {p q : Run α}, T α p q →
    T α (admitted setting.limits p) (admitted setting'.limits q)

/-- Whatever follows the two computations and is related for all values in `A`, the sequences are
related. -/
def Sequel (T : ∀ α : Type, Run α → Run α → Prop) (α : Type) (A : α → Prop) (p q : Run α) : Prop :=
  ∀ (β : Type) (f g : α → Run β), (∀ a, A a → T β (f a) (g a)) → T β (p >>= f) (q >>= g)

theorem fail_bind {α β : Type} (cause : RuntimeError) (f : α → Run β) :
    (Bounded.fail cause >>= f : Run β) = Bounded.fail cause := rfl

theorem admitted_bind {α β : Type} (limits : Limits) (p : Run α) (f : α → Run β) :
    admitted limits p >>= f = admitted limits (p >>= f) := by
  unfold admitted
  rw [bind_assoc]
  congr
  funext s
  split
  · exact fail_bind _ f
  · rfl

namespace Congruence

variable {setting setting' : Setting} {T : ∀ α : Type, Run α → Run α → Prop}
  {eval eval' : Evaluator}

section Inner

variable (C : Congruence setting setting' T)

include C

/-- Related computations are so with all that follows. -/
theorem sequel {α : Type} {p q : Run α} {A : α → Prop} (all : ∀ a, A a) (h : T α p q) :
    Sequel T α A p q :=
  fun _ _ _ rest => C.bind h fun a => rest a (all a)

theorem of_sequel {α : Type} {p q : Run α} {A : α → Prop} (h : Sequel T α A p q) : T α p q := by
  have followed := h α Pure.pure Pure.pure fun a _ => C.pure a
  rwa [bind_pure, bind_pure] at followed

theorem relates : Relates .all setting setting' (Sequel T) where
  pure known := by
    intro _ f g rest
    rw [pure_bind, pure_bind]
    exact rest _ known
  fail cause := by
    intro _ f g _
    rw [fail_bind, fail_bind]
    exact C.fail cause
  bind first rest := by
    intro _ f g after
    rw [bind_assoc, bind_assoc]
    exact first _ _ _ fun a known => rest a known _ f g after
  newFrame _ := C.sequel (fun _ => trivial) (C.newFrame _)
  newIdentity := C.sequel (fun _ => trivial) C.newIdentity
  lookup _ _ := C.sequel (fun _ => trivial) (C.lookup _ _)
  declare _ _ _ _ := C.sequel (fun _ => trivial) (C.declare _ _ _ _)
  assign _ _ _ := C.sequel (fun _ => trivial) (C.assign _ _ _)
  write text := C.sequel (fun _ => trivial) (C.write text)
  readClock := C.sequel (fun _ => trivial) C.readClock
  admitted h := by
    intro _ f g rest
    rw [admitted_bind, admitted_bind]
    exact C.admitted (h _ f g rest)

theorem bindParameters (frame : FrameId) (names : List String) (arguments : List Value) :
    T Unit (bindParameters frame names arguments) (bindParameters frame names arguments) :=
  C.of_sequel (C.relates.bindParameters trivial names fun _ _ => trivial)

theorem callNative (function : Native) (arguments : List Value) :
    T Value (callNative setting function arguments) (callNative setting' function arguments) :=
  C.of_sequel (C.relates.callNative function arguments)

variable (inner : ∀ e frame, T Value (eval e frame) (eval' e frame))

include inner

theorem sequel_inner (e : Expression) (frame : FrameId) (_ : Realm.all.frame frame) :
    Sequel T Value Realm.all.value (eval e frame) (eval' e frame) :=
  C.sequel (fun _ => trivial) (inner e frame)

theorem statement (frame : FrameId) (s : Statement) :
    T Value (statement eval frame s) (statement eval' frame s) :=
  C.of_sequel (C.relates.statement (C.sequel_inner inner) trivial s)

theorem statements (frame : FrameId) (last : Value) (ss : List Statement) :
    T Value (statements eval frame last ss) (statements eval' frame last ss) :=
  C.of_sequel (C.relates.statements (C.sequel_inner inner) trivial trivial ss)

theorem node_of_not_call (frame : FrameId) {e : Expression}
    (notCall : ∀ token callee arguments, e ≠ .call token callee arguments) :
    T Value (node setting eval frame e) (node setting' eval' frame e) :=
  C.of_sequel (C.relates.node_of_not_call (C.sequel_inner inner) trivial notCall)

theorem values (frame : FrameId) (es : List Expression) :
    T (List Value) (values eval frame es) (values eval' frame es) :=
  C.of_sequel (C.relates.values (C.sequel_inner inner) trivial es)

end Inner

theorem program (C : Congruence setting setting' T)
    (inner : ∀ e frame, T Value (evaluate setting e frame) (evaluate setting' e frame))
    (frame : FrameId) (p : Program) :
    T Value (program setting frame p) (program setting' frame p) :=
  C.of_sequel (C.relates.program (C.sequel_inner inner) trivial p)

/-- The bodies of functions, as they run in a call. -/
def Bodies (setting setting' : Setting) (T : ∀ α : Type, Run α → Run α → Prop)
    (eval eval' : Evaluator) : Prop :=
  ∀ frame ss, T Value (calling (nested setting.limits (Run.statements eval frame .null ss)))
    (calling (nested setting'.limits (Run.statements eval' frame .null ss)))

/-- Evaluations of an expression are related when those of the expressions inside it and those of
bodies of functions are. -/
theorem node (C : Congruence setting setting' T)
    (inner : ∀ e frame, T Value (eval e frame) (eval' e frame))
    (bodies : Bodies setting setting' T eval eval') (frame : FrameId) (e : Expression) :
    T Value (node setting eval frame e) (node setting' eval' frame e) := by
  have inside : Realm.all.frame frame := trivial
  apply C.of_sequel
  apply C.relates.node (C.sequel_inner inner) _ inside e
  intro frame ss _
  exact C.sequel (fun _ => trivial) (bodies frame ss)

end Congruence

/-! ## Properties of one evaluation -/

/-- A property of computations that steps respect. -/
def Invariant (setting : Setting) (K : ∀ α : Type, Run α → Prop) : Prop :=
  Congruence setting setting fun α p _ => K α p

namespace Invariant

variable {setting : Setting} {K : ∀ α : Type, Run α → Prop} {eval : Evaluator}
  (I : Invariant setting K) (inner : ∀ e frame, K Value (eval e frame))

include I inner

theorem statement (frame : FrameId) (s : Statement) : K Value (statement eval frame s) :=
  @Congruence.statement _ _ _ eval eval I inner frame s

theorem statements (frame : FrameId) (last : Value) (ss : List Statement) :
    K Value (statements eval frame last ss) :=
  @Congruence.statements _ _ _ eval eval I inner frame last ss

theorem node (bodies : ∀ frame ss, K Value
      (calling (nested setting.limits (Run.statements eval frame .null ss))))
    (frame : FrameId) (e : Expression) : K Value (node setting eval frame e) :=
  @Congruence.node _ _ _ eval eval I inner bodies frame e

omit inner in
theorem program (inner : ∀ e frame, K Value (evaluate setting e frame)) (frame : FrameId)
    (p : Program) : K Value (program setting frame p) :=
  Congruence.program I inner frame p

end Invariant

end Guion
