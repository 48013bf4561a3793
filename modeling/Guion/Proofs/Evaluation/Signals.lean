import Guion.Proofs.Evaluation.Hooks
import Guion.Proofs.Program.Discipline
import Guion.Proofs.Scope.Constants

/-!
# Signals

The signal of a `regresa` is an ordinary value, and may be declared, passed and stored like any
other.  In a session of disciplined programs it never is: it stays on its way from the statement to
the enclosing call (`signals_contained`).

What happens while a program runs is stated with hooks that watch for signals (`Watched.hooks`): the
evaluation stops as soon as one is bound, stored in an object, passed or returned, as soon as an
expression that is no conditional has one for its value, and where statements yield the signal of a
signal.  From every heap that disciplined programs leave, it gives the result of the evaluation
itself.

The invariant is joint: bound values hold no signal, and the functions among them have disciplined
bodies (`Value.contained`).
-/

set_option autoImplicit false

namespace Guion

open Run Bounded

variable {α β : Type}

/-! ## Values without signals -/

mutual

/-- No signal occurs in the value, and all functions that occur in it are as `ok` says. -/
def Value.free (ok : Closure → Bool) : Value → Bool
  | .object _ properties => Value.freeAll ok properties
  | .function f => ok f
  | .returned _ => false
  | _ => true

/-- No signal occurs in the properties, and their functions are as `ok` says. -/
def Value.freeAll (ok : Closure → Bool) : List (String × Value) → Bool
  | [] => true
  | (_, value) :: rest => value.free ok && Value.freeAll ok rest

end

/-- No signal occurs in the value. -/
def Value.plain (v : Value) : Bool := v.free fun _ => true

/-- No signal occurs in the value, and all functions in it have disciplined bodies. -/
def Value.contained (v : Value) : Bool := v.free fun f => f.body.disciplined

/-- The value is contained, or it is the signal of one that is. -/
def Value.Settled (v : Value) : Prop := v.unwrapped.contained

theorem Value.freeAll_iff {ok : Closure → Bool} {properties : List (String × Value)} :
    Value.freeAll ok properties ↔ ∀ entry ∈ properties, entry.2.free ok := by
  induction properties with
  | nil => simp [Value.freeAll]
  | cons entry rest ih =>
    obtain ⟨key, value⟩ := entry
    simp [Value.freeAll, ih]

mutual

theorem Value.plain_of_free {ok : Closure → Bool} : (v : Value) → v.free ok → v.plain
  | .object _ properties, h => Value.plain_of_freeAll properties h
  | .null, _ | .boolean _, _ | .number _, _ | .string _, _ | .function _, _ | .native _, _
  | .error _, _ => rfl

theorem Value.plain_of_freeAll {ok : Closure → Bool} : (properties : List (String × Value)) →
    Value.freeAll ok properties → Value.freeAll (fun _ => true) properties
  | [], _ => rfl
  | (_, value) :: rest, h => by
    simp only [Value.freeAll, Bool.and_eq_true] at h ⊢
    exact ⟨Value.plain_of_free value h.1, Value.plain_of_freeAll rest h.2⟩

end

namespace Value

variable {v result : Value}

theorem plain_of_contained (h : v.contained) : v.plain := plain_of_free v h

theorem settled_of_contained (h : v.contained) : v.Settled := by
  cases v with
  | returned v => cases h
  | _ => exact h

theorem contained_of_unary {op : UnaryOp} (h : op.apply v = .ok result) : result.contained := by
  unfold UnaryOp.apply at h
  split at h <;> cases h <;> rfl

theorem contained_ofNumbers (op : BinaryOp) (x y : Float) : (op.ofNumbers x y).contained := by
  cases op <;> rfl

theorem contained_of_binary {op : BinaryOp} {w : Value} (h : op.apply v w = .ok result) :
    result.contained := by
  unfold BinaryOp.apply at h
  split at h
  · cases h
    rfl
  · cases h
    rfl
  · split at h <;> cases h
    rfl
  · cases h
    exact contained_ofNumbers op _ _
  · cases h

theorem contained_of_member {key : String} (h : v.contained) (read : v.member key = .ok result) :
    result.contained := by
  cases v with
  | object identity properties =>
    cases read
    cases found : Table.find? key properties with
    | none => rfl
    | some value => exact freeAll_iff.1 h _ (Table.mem_of_find? found)
  | _ => cases read

end Value

/-! ## Heaps without signals -/

/-- All bound values are contained. -/
def Heap.Contained (h : Heap) : Prop :=
  ∀ i name binding, h.binding? i name = some binding → binding.value.contained

namespace Heap.Contained

variable {h k : Heap} (contained : h.Contained)

include contained

theorem lookup {i : FrameId} {name : String} {v : Value} (found : h.lookup i name = .ok v) :
    v.contained := by
  obtain ⟨j, -, constant, there⟩ := exists_binding?_of_lookup found
  exact contained j name ⟨v, constant⟩ there

theorem push (parent : Option FrameId) : (h.push (.empty parent)).Contained := by
  intro i name binding found
  rw [binding?, frame?_push] at found
  split at found
  · cases found
  · exact contained i name binding found

theorem bind {i : FrameId} {name : String} {new : Binding} (fits : new.value.contained) :
    (h.bind i name new).Contained := by
  intro j query binding found
  rw [binding?_bind] at found
  split at found
  · cases found
    exact fits
  · exact contained j query binding found

theorem declare {i : FrameId} {name : String} {v : Value} {constant : Bool} (fits : v.contained)
    (done : h.declare i name v constant = .ok k) : k.Contained := by
  obtain ⟨-, rfl⟩ := declare_eq_ok done
  exact contained.bind fits

theorem assign {i : FrameId} {name : String} {v : Value} (fits : v.contained)
    (done : h.assign i name v = .ok k) : k.Contained := by
  obtain ⟨j, -, -, -, -, rfl⟩ := assign_eq_ok done
  exact contained.bind fits

end Heap.Contained

/-! ## Watched evaluation -/

namespace Watched

/-- Stops unless the value of `act` passes. -/
def allow (pass : Value → Bool) (act : Run Value) : Run Value := do
  let value ← act
  if pass value then return value else Bounded.exhausted

/-- A value that is used, and the value of an expression that is no conditional, may not be a
signal.  The value of statements may be one, but not the signal of one. -/
def hooks (limits : Limits) : Hooks :=
  { Hooks.plain limits with
    used := allow Value.plain
    settled := allow fun value => value.unwrapped.plain
    yielded := fun e => allow fun value => e.isConditional || value.plain }

end Watched

/-! ## Nothing is seen -/

/-- The run keeps the bindings contained, and its value, if it has one, is in `A`. -/
inductive Clear (A : α → Prop) : EStateM.Result (Stop RuntimeError) Machine α → Prop
  | ok {a : α} {t : Machine} : A a → t.heap.Contained → Clear A (.ok a t)
  | error {stop : Stop RuntimeError} {t : Machine} : t.heap.Contained → Clear A (.error stop t)

/-- From every machine whose bindings are contained, the run of `p` is clear and `q` gives the
same. -/
def Passes (A : α → Prop) (p q : Run α) : Prop :=
  ∀ s, s.heap.Contained → Clear A (p s) ∧ q s = p s

section Steps

variable {A : α → Prop} {B : β → Prop} {p q : Run α}

theorem Passes.bind {f g : α → Run β} (first : Passes A p q)
    (rest : ∀ a, A a → Passes B (f a) (g a)) : Passes B (p >>= f) (q >>= g) := by
  intro s contained
  obtain ⟨clear, same⟩ := first s contained
  cases run : p s with
  | ok a t =>
    rw [run] at clear same
    rw [bind_of_ok run, bind_of_ok same]
    cases clear with
    | ok known contained => exact rest a known t contained
  | error stop t =>
    rw [run] at clear same
    rw [bind_of_error run, bind_of_error same]
    cases clear with
    | error contained => exact ⟨.error contained, rfl⟩

theorem passes_pure {a : α} (known : A a) : Passes A (pure a) (pure a) :=
  fun _ contained => ⟨.ok known contained, rfl⟩

theorem passes_fail (cause : RuntimeError) : Passes A (fail cause) (fail cause) :=
  fun _ contained => ⟨.error contained, rfl⟩

theorem passes_ofExcept {result : Except RuntimeError α} (h : ∀ a, result = .ok a → A a) :
    Passes A (ofExcept result) (ofExcept result) := by
  cases result with
  | ok a => exact passes_pure (h a rfl)
  | error cause => exact passes_fail cause

theorem Passes.mono {C : α → Prop} (h : Passes A p q) (weaker : ∀ a, A a → C a) :
    Passes C p q := by
  intro s contained
  obtain ⟨clear, same⟩ := h s contained
  refine ⟨?_, same⟩
  generalize p s = r at clear
  cases clear with
  | ok known contained => exact .ok (weaker _ known) contained
  | error contained => exact .error contained

/-- Values that are known to pass are let through. -/
theorem Passes.allow {A : Value → Prop} {p q : Run Value} {pass : Value → Bool}
    (h : Passes A p q) (passing : ∀ v, A v → pass v) : Passes A p (Watched.allow pass q) := by
  have followed := h.bind (g := fun value => if pass value then Pure.pure value else exhausted)
    fun v known => by
      rw [if_pos (passing v known)]
      exact passes_pure known
  rwa [bind_pure] at followed

theorem Clear.ensuring {after : Machine → Machine} {s : Machine} (h : Clear A (p s))
    (kept : ∀ t, (after t).heap = t.heap) : Clear A (ensuring after p s) := by
  rw [Bounded.ensuring]
  generalize p s = r at h
  cases h with
  | @ok a t known contained =>
    rw [← kept t] at contained
    exact .ok known contained
  | @error stop t contained =>
    rw [← kept t] at contained
    exact .error contained

theorem ensuring_congr {after : Machine → Machine} {s : Machine} (same : q s = p s) :
    ensuring after q s = ensuring after p s := by
  rw [Bounded.ensuring, same, Bounded.ensuring]

theorem Passes.nested (h : Passes A p q) (limits : Limits) :
    Passes A (nested limits p) (nested limits q) := by
  intro s contained
  rw [nested_apply, nested_apply]
  split
  · exact ⟨.error contained, rfl⟩
  · obtain ⟨clear, same⟩ := h { s with depth := s.depth + 1 } contained
    exact ⟨clear.ensuring fun _ => rfl, ensuring_congr same⟩

theorem Passes.calling (h : Passes A p q) : Passes A (calling p) (calling q) := by
  intro s contained
  obtain ⟨clear, same⟩ := h { s with calls := s.calls + 1 } contained
  exact ⟨clear.ensuring fun _ => rfl, ensuring_congr same⟩

theorem Passes.admitted (h : Passes A p q) (limits : Limits) :
    Passes A (admitted limits p) (admitted limits q) := by
  intro s contained
  rw [admitted_apply, admitted_apply]
  split
  · exact ⟨.error contained, rfl⟩
  · exact h s contained

theorem passes_newFrame (parent : Option FrameId) :
    Passes (fun _ => True) (newFrame (.empty parent)) (newFrame (.empty parent)) :=
  fun _ contained => ⟨.ok trivial (contained.push parent), rfl⟩

theorem passes_newIdentity : Passes (fun _ => True) newIdentity newIdentity :=
  fun _ contained => ⟨.ok trivial contained, rfl⟩

theorem passes_lookup (frame : FrameId) (name : String) :
    Passes (·.contained) (lookup frame name) (lookup frame name) := by
  intro s contained
  rw [lookup_apply]
  cases found : s.heap.lookup frame name with
  | ok v => exact ⟨.ok (contained.lookup found) contained, rfl⟩
  | error e => exact ⟨.error contained, rfl⟩

theorem passes_declare (frame : FrameId) (name : String) {v : Value} (constant : Bool)
    (fits : v.contained) :
    Passes (·.contained) (declare frame name v constant) (declare frame name v constant) := by
  intro s contained
  refine ⟨?_, rfl⟩
  rw [Run.declare]
  cases done : s.heap.declare frame name v constant with
  | ok k => exact .ok fits (contained.declare fits done)
  | error e => exact .error contained

theorem passes_assign (frame : FrameId) (name : String) {v : Value} (fits : v.contained) :
    Passes (·.contained) (assign frame name v) (assign frame name v) := by
  intro s contained
  refine ⟨?_, rfl⟩
  rw [Run.assign]
  cases done : s.heap.assign frame name v with
  | ok k => exact .ok fits (contained.assign fits done)
  | error e => exact .error contained

theorem passes_write (text : String) : Passes (fun _ => True) (write text) (write text) := by
  intro s contained
  rw [write_apply]
  split
  · exact ⟨.ok trivial contained, rfl⟩
  · exact ⟨.error contained, rfl⟩

theorem passes_readClock (setting : Setting) :
    Passes (fun _ => True) (readClock setting) (readClock setting) :=
  fun _ contained => ⟨.ok trivial contained, rfl⟩

theorem passes_callNative (setting : Setting) (function : Native) (arguments : List Value) :
    Passes (·.contained) (callNative setting function arguments)
      (callNative setting function arguments) := by
  cases function with
  | imprimir =>
    apply (passes_write _).bind
    intro _ _
    apply (passes_write _).bind
    intro _ _
    exact passes_pure rfl
  | tiempo =>
    apply (passes_readClock setting).bind
    intro _ _
    refine passes_ofExcept fun v read => ?_
    obtain ⟨x, rfl⟩ := exists_of_elapsed read
    rfl

theorem passes_closure (frame : FrameId) (name : Option String) (parameters : List Identifier)
    {body : Block} (disciplined : body.disciplined) :
    Passes (·.contained) (closure frame name parameters body)
      (closure frame name parameters body) := by
  apply passes_newIdentity.bind
  intro _ _
  exact passes_pure disciplined

theorem passes_bindParameters (frame : FrameId) (names : List String) {arguments : List Value}
    (fit : ∀ v ∈ arguments, v.contained) :
    Passes (fun _ => True) (bindParameters frame names arguments)
      (bindParameters frame names arguments) := by
  induction names generalizing arguments with
  | nil => exact passes_pure trivial
  | cons name names ih =>
    have first : (arguments.headD .null).contained := by
      cases arguments with
      | nil => rfl
      | cons v rest => exact fit v List.mem_cons_self
    apply (passes_declare frame name false first).bind
    intro _ _
    exact ih fun v later => fit v (List.mem_of_mem_tail later)

end Steps

/-! ## Expressions -/

/-- The value of a statement is contained or the signal of such a value, and contained if the
statement does not return. -/
def Value.Fits (returns : Bool) (v : Value) : Prop := v.Settled ∧ (returns = false → v.contained)

theorem Value.fits_of_contained {returns : Bool} {v : Value} (h : v.contained) : v.Fits returns :=
  ⟨settled_of_contained h, fun _ => h⟩

theorem Value.Fits.pass {returns : Bool} {v : Value} (h : v.Fits returns) :
    v.unwrapped.plain :=
  plain_of_contained h.1

/-- An expression that is a statement by itself fits as an operand unless it returns. -/
theorem Expression.disciplined_of_statement {token : Token} {e : Expression}
    (h : (Statement.expression token e).disciplined) (silent : e.returns = false) :
    e.disciplined := by
  cases e with
  | conditional _ condition consequence alternative =>
    rw [Expression.disciplined, silent]
    exact h
  | _ => exact h

/-- Evaluations of disciplined expressions pass. -/
structure Contains (eval eval' : Evaluator) : Prop where
  operand : ∀ {e : Expression} (frame : FrameId), e.disciplined →
    Passes (·.contained) (eval e frame) (eval' e frame)
  statement : ∀ {token : Token} {e : Expression} (frame : FrameId),
    (Statement.expression token e).disciplined → Passes Value.Settled (eval e frame) (eval' e frame)

namespace Contains

variable {limits : Limits} {eval eval' : Evaluator} (inner : Contains eval eval')

include inner

theorem plainly {e : Expression} (frame : FrameId) (disciplined : e.disciplined) :
    Passes (·.contained) (eval e frame) ((Watched.hooks limits).operand eval' e frame) :=
  (inner.operand frame disciplined).allow fun _ => Value.plain_of_contained

theorem optional (frame : FrameId) {value : Option Expression}
    (disciplined : Expression.disciplinedOption value) :
    Passes (·.contained) (optional eval frame value)
      (optional ((Watched.hooks limits).operand eval') frame value) := by
  cases value with
  | none => exact passes_pure rfl
  | some e => exact inner.plainly frame disciplined

theorem runStatement (frame : FrameId) {s : Statement} (disciplined : s.disciplined) :
    Passes (Value.Fits s.returns) (Run.statement eval frame s)
      ((Watched.hooks limits).statement eval' frame s) := by
  cases s with
  | expression token e =>
    cases returns : e.returns with
    | true =>
      refine (inner.statement frame disciplined).mono fun v settled => ⟨settled, fun silent => ?_⟩
      rw [Statement.returns, returns] at silent
      cases silent
    | false =>
      have operand := Expression.disciplined_of_statement disciplined returns
      exact (inner.operand frame operand).mono fun _ => Value.fits_of_contained
  | declaration token name value constant =>
    apply (inner.optional frame disciplined).bind
    intro v fits
    exact (passes_declare frame _ constant fits).mono fun _ => Value.fits_of_contained
  | function token name parameters body =>
    apply (passes_closure frame _ parameters disciplined).bind
    intro v fits
    exact (passes_declare frame _ true fits).mono fun _ => Value.fits_of_contained
  | result token value =>
    apply (inner.optional frame disciplined).bind
    intro v fits
    exact passes_pure ⟨fits, nofun⟩

theorem sequence (frame : FrameId) {last : Value} (known : last.contained) {ss : List Statement}
    (disciplined : Statement.disciplinedAll ss) :
    Passes (Value.Fits (Statement.returnsAny ss)) (statements eval frame last ss)
      ((Watched.hooks limits).sequence eval' frame last ss) := by
  induction ss generalizing last with
  | nil => exact passes_pure (Value.fits_of_contained known)
  | cons s ss ih =>
    rw [Statement.disciplinedAll, Bool.and_eq_true] at disciplined
    apply (inner.runStatement frame disciplined.1).bind
    rintro v ⟨settled, silent⟩
    rw [Statement.returnsAny]
    have passed (known : v.contained) :
        Passes (Value.Fits (s.returns || Statement.returnsAny ss)) (statements eval frame v ss)
          ((Watched.hooks limits).sequence eval' frame v ss) :=
      (ih known disciplined.2).mono fun w fits =>
        ⟨fits.1, fun none => fits.2 (Bool.or_eq_false_iff.1 none).2⟩
    -- a signal ends the sequence; only a statement that returns yields one
    cases v with
    | returned v =>
      refine passes_pure ⟨settled, fun none => ?_⟩
      exact silent (Bool.or_eq_false_iff.1 none).1
    | _ => exact passed settled

theorem runStatements (frame : FrameId) {ss : List Statement}
    (disciplined : Statement.disciplinedAll ss) :
    Passes (Value.Fits (Statement.returnsAny ss)) (statements eval frame .null ss)
      ((Watched.hooks limits).statements eval' frame ss) :=
  (inner.sequence frame rfl disciplined).allow fun _ => Value.Fits.pass

theorem block (frame : FrameId) {body : Block} (disciplined : body.disciplined) :
    Passes (Value.Fits body.returns) (block eval frame body)
      ((Watched.hooks limits).block eval' frame body) := by
  obtain ⟨token, ss⟩ := body
  apply (passes_newFrame _).bind
  intro own _
  exact inner.runStatements own disciplined

theorem conditional (frame : FrameId) {condition : Expression} {consequence : Block}
    {alternative : Option Block} (disciplined : condition.disciplined)
    (first : consequence.disciplined) (second : Block.disciplinedOption alternative) :
    Passes (Value.Fits (consequence.returns || Block.returnsOption alternative))
      (conditional eval frame condition consequence alternative)
      ((Watched.hooks limits).conditional eval' frame condition consequence alternative) := by
  apply (inner.plainly frame disciplined).bind
  intro v _
  cases v with
  | boolean holds =>
    cases holds with
    | true =>
      exact (inner.block frame first).mono fun w fits =>
        ⟨fits.1, fun none => fits.2 (Bool.or_eq_false_iff.1 none).1⟩
    | false =>
      cases alternative with
      | none => exact passes_pure (Value.fits_of_contained rfl)
      | some body =>
        exact (inner.block frame second).mono fun w fits =>
          ⟨fits.1, fun none => fits.2 (Bool.or_eq_false_iff.1 none).2⟩
  | _ => exact passes_fail _

theorem values (frame : FrameId) {es : List Expression}
    (disciplined : Expression.disciplinedAll es) :
    Passes (fun vs => ∀ v ∈ vs, v.contained) (values eval frame es)
      (values ((Watched.hooks limits).operand eval') frame es) := by
  induction es with
  | nil => exact passes_pure nofun
  | cons e es ih =>
    rw [Expression.disciplinedAll, Bool.and_eq_true] at disciplined
    apply (inner.plainly frame disciplined.1).bind
    intro v fits
    apply (ih disciplined.2).bind
    intro vs fitAll
    exact passes_pure (List.forall_mem_cons.2 ⟨fits, fitAll⟩)

theorem properties (frame : FrameId) {ps : List Property}
    (disciplined : Property.disciplinedAll ps) :
    Passes (fun entries => ∀ entry ∈ entries, entry.2.contained) (properties eval frame ps)
      (properties ((Watched.hooks limits).operand eval') frame ps) := by
  induction ps with
  | nil => exact passes_pure nofun
  | cons p ps ih =>
    obtain ⟨key, value⟩ := p
    rw [Property.disciplinedAll, Bool.and_eq_true] at disciplined
    cases value with
    | none =>
      apply (passes_lookup frame _).bind
      intro v fits
      apply (ih disciplined.2).bind
      intro entries fitAll
      exact passes_pure (List.forall_mem_cons.2 ⟨fits, fitAll⟩)
    | some e =>
      apply (inner.plainly frame disciplined.1).bind
      intro v fits
      apply (ih disciplined.2).bind
      intro entries fitAll
      exact passes_pure (List.forall_mem_cons.2 ⟨fits, fitAll⟩)

theorem callClosure {function : Closure} (disciplined : function.body.disciplined)
    {arguments : List Value} (fit : ∀ v ∈ arguments, v.contained) :
    Passes (·.contained) (callClosure limits eval function arguments)
      ((Watched.hooks limits).callClosure eval' function arguments) := by
  obtain ⟨identity, name, parameters, ⟨token, ss⟩, captured⟩ := function
  unfold Run.callClosure Hooks.callClosure
  split
  · exact passes_fail _
  · refine Passes.admitted ?_ limits
    apply (passes_newFrame _).bind
    intro frame _
    apply (passes_bindParameters frame _ fit).bind
    intro _ _
    apply ((inner.runStatements frame disciplined).nested limits).calling.bind
    -- the signal ends at the call, and what it was the signal of is contained
    intro v fits
    exact passes_pure fits.1

theorem call (setting : Setting) {callee : Value} (known : callee.contained)
    {arguments : List Value} (fit : ∀ v ∈ arguments, v.contained) :
    Passes (·.contained) (call setting eval callee arguments)
      ((Watched.hooks setting.limits).call setting eval' callee arguments) := by
  cases callee with
  | function function => exact inner.callClosure known fit
  | native function => exact passes_callNative setting function arguments
  | _ => exact passes_fail _

theorem node (setting : Setting) (frame : FrameId) {e : Expression} (disciplined : e.disciplined) :
    Passes (·.contained) (node setting eval frame e)
      ((Watched.hooks setting.limits).node setting eval' frame e) := by
  cases e with
  | identifier name => exact passes_lookup frame _
  | integer _ value => exact passes_pure rfl
  | float _ value => exact passes_pure rfl
  | boolean _ value => exact passes_pure rfl
  | string _ value => exact passes_pure rfl
  | null _ => exact passes_pure rfl
  | unary _ op operand =>
    apply (inner.plainly (e := operand) frame disciplined).bind
    intro _ _
    exact passes_ofExcept fun _ => Value.contained_of_unary
  | binary _ op left right =>
    rw [Expression.disciplined, Bool.and_eq_true] at disciplined
    apply (inner.plainly frame disciplined.1).bind
    intro _ _
    apply (inner.plainly frame disciplined.2).bind
    intro _ _
    exact passes_ofExcept fun _ => Value.contained_of_binary
  | assign _ target value =>
    apply (inner.plainly (e := value) frame disciplined).bind
    intro _ fits
    exact passes_assign frame _ fits
  | conditional _ condition consequence alternative =>
    -- one that is no statement by itself does not return
    simp only [Expression.disciplined, Expression.returns, Bool.and_eq_true, Bool.not_eq_true',
      Bool.or_eq_false_iff] at disciplined
    obtain ⟨⟨⟨-, first⟩, second⟩, ⟨inside, blocks⟩, others⟩ := disciplined
    exact (inner.conditional frame inside blocks others).mono fun v fits =>
      fits.2 (Bool.or_eq_false_iff.2 ⟨first, second⟩)
  | function _ parameters body => exact passes_closure frame none parameters disciplined
  | call _ callee arguments =>
    rw [Expression.disciplined, Bool.and_eq_true] at disciplined
    apply (inner.plainly frame disciplined.1).bind
    intro _ known
    apply (inner.values frame disciplined.2).bind
    intro _ fit
    exact inner.call setting known fit
  | member _ object property computed =>
    rw [Expression.disciplined, Bool.and_eq_true] at disciplined
    apply (inner.plainly frame disciplined.1).bind
    intro _ known
    cases computed with
    | true =>
      apply (inner.plainly frame disciplined.2).bind
      intro _ _
      apply (passes_ofExcept (A := fun _ => True) fun _ _ => trivial).bind
      intro _ _
      exact passes_ofExcept fun _ => Value.contained_of_member known
    | false =>
      apply (passes_pure (A := fun _ => True) trivial).bind
      intro _ _
      exact passes_ofExcept fun _ => Value.contained_of_member known
  | object _ ps =>
    apply (inner.properties frame disciplined).bind
    intro entries fit
    apply passes_newIdentity.bind
    intro _ _
    refine passes_pure (Value.freeAll_iff.2 fun entry known => ?_)
    exact fit entry (Table.mem_of_mem_ofList known)

end Contains

/-- Evaluations of disciplined expressions pass, with any bound on the recursion. -/
theorem contains_expression (setting : Setting) (bound : Nat) :
    Contains (expression setting bound)
      ((Watched.hooks setting.limits).expression setting bound) := by
  induction bound with
  | zero =>
    exact ⟨fun _ _ s contained => ⟨.error contained, rfl⟩, fun _ _ s contained =>
      ⟨.error contained, rfl⟩⟩
  | succ bound ih =>
    have operand {e : Expression} (frame : FrameId) (disciplined : e.disciplined) :
        Passes (·.contained) (expression setting (bound + 1) e frame)
          ((Watched.hooks setting.limits).expression setting (bound + 1) e frame) := by
      refine ((ih.node setting frame disciplined).nested setting.limits).allow fun v fits => ?_
      rw [Value.plain_of_contained fits, Bool.or_true]
    refine ⟨operand, fun {token e} frame disciplined => ?_⟩
    -- only a conditional is treated otherwise where it is a statement by itself
    cases e with
    | conditional _ condition consequence alternative =>
      simp only [Statement.disciplined, Bool.and_eq_true] at disciplined
      obtain ⟨⟨inside, first⟩, second⟩ := disciplined
      refine Passes.allow (Passes.nested ?_ setting.limits) fun _ _ => rfl
      exact (ih.conditional frame inside first second).mono fun _ fits => fits.1
    | _ => exact (operand frame disciplined).mono fun _ => Value.settled_of_contained

theorem contains_evaluate (setting : Setting) :
    Contains (evaluate setting) ((Watched.hooks setting.limits).evaluate setting) where
  operand frame disciplined s := (contains_expression setting _).operand frame disciplined s
  statement frame disciplined s := (contains_expression setting _).statement frame disciplined s

theorem passes_program (setting : Setting) (frame : FrameId) {p : Program}
    (disciplined : p.disciplined) :
    Passes (·.contained) (program setting frame p)
      ((Watched.hooks setting.limits).run setting frame (.program p)) := by
  apply ((contains_evaluate setting).runStatements frame disciplined).bind
  intro v fits
  exact passes_pure fits.1

/-! ## Sessions -/

namespace Session

/-- The source runs only if it has no syntax errors, and then it is disciplined. -/
def Accepts (session : Session) (source : String) : Prop :=
  (parse session.setting.limits.nesting source).errors = [] →
    (parse session.setting.limits.nesting source).program.disciplined

theorem contained_start (setting : Setting) (capacity : Option Nat) :
    (start setting capacity).machine.heap.Contained :=
  forall_binding?_start (P := fun _ value => value.contained) rfl rfl rfl rfl rfl setting capacity

variable {session : Session} (contained : session.machine.heap.Contained)

include contained

/-- A disciplined source leaves the bindings contained, and its value is too. -/
theorem contained_eval {source : String} (accepts : session.Accepts source) :
    (session.eval source).2.machine.heap.Contained ∧
      ∀ value, (session.eval source).1 = .ok value → value.contained := by
  rw [eval]
  cases errors : (parse session.setting.limits.nesting source).errors with
  | nil =>
    obtain ⟨clear, -⟩ :=
      passes_program session.setting session.globals (accepts errors) session.machine contained
    simp only [run, outcome]
    generalize program session.setting session.globals _ session.machine = r at clear
    cases clear with
    | ok fits contained =>
      refine ⟨contained, fun value same => ?_⟩
      cases same
      exact fits
    | @error stop t contained => cases stop <;> exact ⟨contained, fun _ same => by cases same⟩
  | cons error errors => exact ⟨contained, fun _ same => by cases same⟩

theorem contained_after {sources : List String}
    (accepts : ∀ source ∈ sources, session.Accepts source) :
    (session.after sources).machine.heap.Contained := by
  induction sources generalizing session with
  | nil => exact contained
  | cons source rest ih =>
    have first := (contained_eval contained (accepts source List.mem_cons_self)).1
    have same := (along_eval keeps_grows session source).setting
    refine ih first fun text later => ?_
    rw [Accepts, same]
    exact accepts text (List.mem_cons_of_mem _ later)

end Session

/-- Signals stay inside their call.  In a session of disciplined sources, each source runs as under
the evaluation that stops when a signal is bound, stored in an object, passed or returned, when an
expression that is no conditional has one for its value, and when statements yield the signal of
one.  No binding holds a signal afterwards, and no source has one for its value. -/
theorem signals_contained (setting : Setting) (capacity : Option Nat) (sources : List String)
    (source : String)
    (disciplined : ∀ text ∈ source :: sources, (parse setting.limits.nesting text).errors = [] →
      (parse setting.limits.nesting text).program.disciplined) :
    let session := (Session.start setting capacity).after sources
    let p := (parse setting.limits.nesting source).program
    ((parse setting.limits.nesting source).errors = [] →
        (Watched.hooks setting.limits).run setting session.globals (.program p) session.machine =
          program setting session.globals p session.machine) ∧
      (∀ i name binding,
        (session.eval source).2.machine.heap.binding? i name = some binding →
          binding.value.plain) ∧
      ∀ value, (session.eval source).1 = .ok value → value.plain := by
  intro session p
  have along := Session.along_after keeps_grows (Session.start setting capacity) sources
  have contained : session.machine.heap.Contained :=
    Session.contained_after (Session.contained_start setting capacity)
      fun text listed => disciplined text (List.mem_cons_of_mem _ listed)
  have accepts : session.Accepts source := by
    rw [Session.Accepts, along.setting]
    exact disciplined source List.mem_cons_self
  obtain ⟨bindings, value⟩ := Session.contained_eval contained accepts
  refine ⟨fun clean => ?_, fun i name binding found => ?_, fun v same => ?_⟩
  · have passes := passes_program setting session.globals
      (disciplined source List.mem_cons_self clean)
    exact (passes session.machine contained).2
  · exact Value.plain_of_contained (bindings i name binding found)
  · exact Value.plain_of_contained (value v same)

/-- A function that returns from a conditional inside another, and an object that holds the value of
a call and that of a conditional. -/
def returning : List String :=
  ["func elige(x) \x7b si (x) \x7b si (x) \x7b regresa \"uno\"; \x7d \x7d regresa \"otro\"; \x7d",
    "var o = \x7b a: elige(verdadero), b: si (falso) \x7b nulo \x7d \x7d;"]

theorem signals_contained_returning :
    let session := (Session.start ⟨{}, fun _ => 0⟩ none).after returning
    (∀ text ∈ "regresa o;" :: returning, (parse 64 text).errors = [] ∧
        (parse 64 text).program.disciplined) ∧
      ∃ value, (session.eval "regresa o;").1 = .ok value ∧ value.kind = "object" ∧
        value.plain := by
  intro session
  have disciplined : ∀ text ∈ "regresa o;" :: returning, (parse 64 text).errors = [] ∧
      (parse 64 text).program.disciplined := by
    decide +kernel
  have kind : (session.eval "regresa o;").1.map Value.kind = .ok "object" := by
    decide +kernel
  refine ⟨disciplined, ?_⟩
  cases result : (session.eval "regresa o;").1 with
  | ok value =>
    rw [result] at kind
    have plain := (signals_contained ⟨{}, fun _ => 0⟩ none returning "regresa o;"
      fun text listed _ => (disciplined text listed).2).2.2 value result
    exact ⟨value, rfl, Except.ok.inj kind, plain⟩
  | error e =>
    rw [result] at kind
    cases kind

end Guion
