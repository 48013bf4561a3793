import Guion.Proofs.Evaluation.Termination
import Guion.Proofs.Scope.Places

/-!
# Evaluation at other places

Evaluation looks at the names, values and forms of a program, and never at where its tokens stand.
So the program at other places, on the machine at other places, runs as the program does, and what
it yields and leaves stands at the other places (`Run.moves_program`).  The places may also be the
same for all tokens: then they are forgotten, and programs that differ in places only run alike.

There is one lemma for each step and for each form, given that the expressions inside it run alike.
-/

set_option autoImplicit false

namespace Guion.Run

open Bounded Movable

variable {α β : Type} [Movable α] [Movable β] {g : Position → Position}

/-- The end of a run at other places. -/
def place (g : Position → Position) :
    EStateM.Result (Stop RuntimeError) Machine α → EStateM.Result (Stop RuntimeError) Machine α
  | .ok a t => .ok (move g a) (t.move g)
  | .error stop t => .error stop (t.move g)

/-- At the other places, a run of `p` is one of `p'`. -/
def Moves (g : Position → Position) (p p' : Run α) : Prop :=
  ∀ s : Machine, p' (s.move g) = place g (p s)

/-! ## Steps -/

theorem moves_pure (a : α) : Moves g (pure a) (pure (move g a)) := fun _ => rfl

theorem moves_fail (cause : RuntimeError) : Moves g (fail cause : Run α) (fail cause) :=
  fun _ => rfl

theorem moves_exhausted : Moves g (exhausted : Run α) exhausted := fun _ => rfl

theorem Moves.bind {p p' : Run α} {f f' : α → Run β} (first : Moves g p p')
    (rest : ∀ a, Moves g (f a) (f' (move g a))) : Moves g (p >>= f) (p' >>= f') := by
  intro s
  have moved := first s
  cases run : p s with
  | ok a t =>
    rw [run] at moved
    rw [bind_of_ok moved, bind_of_ok run]
    exact rest a t
  | error stop t =>
    rw [run] at moved
    rw [bind_of_error moved, bind_of_error run]
    rfl

/-- What is done to the counters after a run, however it ends. -/
theorem Moves.ensuring {p p' : Run α} (h : Moves g p p') (after : Machine → Machine)
    (counters : ∀ t : Machine, after (t.move g) = (after t).move g) :
    Moves g (ensuring after p) (ensuring after p') := by
  intro s
  have moved := h s
  simp only [Bounded.ensuring]
  cases run : p s with
  | ok a t =>
    rw [run] at moved
    rw [moved]
    exact congrArg _ (counters t)
  | error stop t =>
    rw [run] at moved
    rw [moved]
    exact congrArg _ (counters t)

theorem Moves.nested (limits : Limits) {p p' : Run α} (h : Moves g p p') :
    Moves g (nested limits p) (nested limits p') := by
  intro s
  rw [nested_apply, nested_apply]
  show (if limits.evaluation ≤ s.depth then _ else _) = _
  split
  · rfl
  · exact h.ensuring (fun t => { t with depth := t.depth - 1 }) (fun _ => rfl)
      { s with depth := s.depth + 1 }

theorem Moves.calling {p p' : Run α} (h : Moves g p p') : Moves g (calling p) (calling p') :=
  fun s => h.ensuring (fun t => { t with calls := t.calls - 1 }) (fun _ => rfl)
    { s with calls := s.calls + 1 }

theorem Moves.admitted (limits : Limits) {p p' : Run α} (h : Moves g p p') :
    Moves g (admitted limits p) (admitted limits p') := by
  intro s
  rw [admitted_apply, admitted_apply]
  show (if limits.calls ≤ s.calls then _ else _) = _
  split
  · rfl
  · exact h s

theorem moves_newFrame (i : FrameId) :
    Moves g (newFrame (.empty (some i))) (newFrame (.empty (some i))) := by
  intro s
  show EStateM.Result.ok (s.heap.move g).size _ = .ok s.heap.size _
  rw [Heap.size_move]
  exact congrArg (EStateM.Result.ok _) (congrArg (fun heap => { s with heap })
    (Heap.push_move s.heap (.empty (some i))))

theorem moves_newIdentity : Moves g newIdentity newIdentity := fun _ => rfl

theorem moves_readClock (setting : Setting) : Moves g (readClock setting) (readClock setting) :=
  fun _ => rfl

theorem moves_lookup (frame : FrameId) (name : String) :
    Moves g (lookup frame name) (lookup frame name) := by
  intro s
  have same : (s.move g).heap.lookup frame name = _ := s.heap.lookup_move frame name
  rw [lookup_apply, lookup_apply, same]
  cases s.heap.lookup frame name <;> rfl

theorem moves_declare (frame : FrameId) (name : String) (v : Value) (constant : Bool) :
    Moves g (declare frame name v constant) (declare frame name (v.move g) constant) := by
  intro s
  have same : (s.move g).heap.declare frame name (v.move g) constant = _ :=
    s.heap.declare_move frame name v constant
  rw [declare, declare, same]
  cases s.heap.declare frame name v constant <;> rfl

theorem moves_assign (frame : FrameId) (name : String) (v : Value) :
    Moves g (assign frame name v) (assign frame name (v.move g)) := by
  intro s
  have same : (s.move g).heap.assign frame name (v.move g) = _ :=
    s.heap.assign_move frame name v
  rw [assign, assign, same]
  cases s.heap.assign frame name v <;> rfl

theorem moves_write (text : String) : Moves g (write text) (write text) := by
  intro s
  rw [write_apply, write_apply]
  show (if s.sink.accepts text then _ else _) = _
  split <;> rfl

theorem moves_ofExcept {result result' : Except RuntimeError α}
    (same : result' = result.map (move g)) : Moves g (ofExcept result) (ofExcept result') := by
  subst same
  cases result with
  | ok a => exact moves_pure a
  | error e => exact moves_fail e

/-! ## Forms -/

theorem moves_closure (frame : FrameId) (name : Option String) (parameters : List Identifier)
    (body : Block) : Moves g (closure frame name parameters body)
      (closure frame name (parameters.map (Identifier.move g)) (body.move g)) := by
  apply moves_newIdentity.bind
  intro identity
  have names : (parameters.map (Identifier.move g)).map Identifier.name =
      parameters.map Identifier.name := List.map_map
  rw [names]
  exact moves_pure _

theorem moves_bindParameters (frame : FrameId) (names : List String) (arguments : List Value) :
    Moves g (bindParameters frame names arguments)
      (bindParameters frame names (move g arguments)) := by
  induction names generalizing arguments with
  | nil => exact moves_pure ()
  | cons name names ih =>
    have head : (move g arguments).headD .null = (arguments.headD .null).move g := by
      cases arguments <;> rfl
    have tail : (move g arguments).tail = move g arguments.tail := by
      cases arguments <;> rfl
    rw [bindParameters, bindParameters, head, tail]
    exact (moves_declare _ _ _ _).bind fun _ => ih _

theorem moves_callNative (setting : Setting) (function : Native) (arguments : List Value) :
    Moves g (callNative setting function arguments)
      (callNative setting function (move g arguments)) := by
  cases function with
  | imprimir =>
    have texts : (move g arguments).map Value.render = arguments.map Value.render := by
      show (arguments.map (Value.move g)).map _ = _
      rw [List.map_map]
      exact List.map_congr_left fun v _ => Value.render_move v
    show Moves g (print arguments) (print (move g arguments))
    rw [print, print, texts]
    exact (moves_write _).bind fun _ => (moves_write _).bind fun _ => moves_pure _
  | tiempo =>
    refine (moves_readClock setting).bind fun reading => moves_ofExcept ?_
    cases reading <;> rfl

section Inner

variable {eval eval' : Evaluator}
  (inner : ∀ e frame, Moves g (eval e frame) (eval' (e.move g) frame))

include inner

theorem moves_optional (frame : FrameId) (value : Option Expression) :
    Moves g (optional eval frame value)
      (optional eval' frame (Expression.moveOption g value)) := by
  cases value with
  | none => exact moves_pure _
  | some e => exact inner e frame

theorem moves_statement (frame : FrameId) (s : Statement) :
    Moves g (statement eval frame s) (statement eval' frame (s.move g)) := by
  cases s with
  | expression _ e => exact inner e frame
  | declaration _ name value constant =>
    exact (moves_optional inner frame value).bind fun v => moves_declare _ _ v _
  | function _ name parameters body =>
    exact (moves_closure frame _ parameters body).bind fun v => moves_declare _ _ v _
  | result _ value =>
    exact (moves_optional inner frame value).bind fun v => moves_pure (Value.returned v)

theorem moves_statements (frame : FrameId) (ss : List Statement) : ∀ last,
    Moves g (statements eval frame last ss)
      (statements eval' frame (last.move g) (Statement.moveAll g ss)) := by
  induction ss with
  | nil => exact fun last => moves_pure last
  | cons s ss ih =>
    intro last
    apply (moves_statement inner frame s).bind
    intro v
    -- a returned value ends the sequence at either place
    cases v with
    | returned v => exact moves_pure (Value.returned v)
    | _ => exact ih _

theorem moves_block (frame : FrameId) (body : Block) :
    Moves g (block eval frame body) (block eval' frame (body.move g)) := by
  obtain ⟨token, ss⟩ := body
  exact (moves_newFrame frame).bind fun own => moves_statements inner own ss .null

theorem moves_conditional (frame : FrameId) (condition : Expression) (consequence : Block)
    (alternative : Option Block) :
    Moves g (conditional eval frame condition consequence alternative)
      (conditional eval' frame (condition.move g) (consequence.move g)
        (Block.moveOption g alternative)) := by
  apply (inner condition frame).bind
  intro v
  cases v with
  | boolean holds =>
    cases holds with
    | true => exact moves_block inner frame consequence
    | false =>
      cases alternative with
      | none => exact moves_pure _
      | some body => exact moves_block inner frame body
  | _ => exact moves_fail _

theorem moves_values (frame : FrameId) (es : List Expression) :
    Moves g (values eval frame es) (values eval' frame (Expression.moveAll g es)) := by
  induction es with
  | nil => exact moves_pure _
  | cons e es ih =>
    exact (inner e frame).bind fun v => ih.bind fun vs => moves_pure (v :: vs)

theorem moves_properties (frame : FrameId) (ps : List Property) :
    Moves g (properties eval frame ps) (properties eval' frame (Property.moveAll g ps)) := by
  induction ps with
  | nil => exact moves_pure _
  | cons p ps ih =>
    obtain ⟨key, value⟩ := p
    cases value with
    | none =>
      exact (moves_lookup frame key.name).bind fun v => ih.bind fun entries =>
        moves_pure ((key.name, v) :: entries)
    | some e =>
      exact (inner e frame).bind fun v => ih.bind fun entries =>
        moves_pure ((key.name, v) :: entries)

theorem moves_callClosure (limits : Limits) (function : Closure) (arguments : List Value) :
    Moves g (callClosure limits eval function arguments)
      (callClosure limits eval' (function.move g) (move g arguments)) := by
  have count : (move g arguments).length = arguments.length := List.length_map _
  rw [callClosure, callClosure, count]
  show Moves g _ (if function.parameters.length < arguments.length then _ else _)
  split
  · exact moves_fail _
  · obtain ⟨identity, name, parameters, ⟨token, ss⟩, made⟩ := function
    apply Moves.admitted
    apply (moves_newFrame made).bind
    intro frame
    apply (moves_bindParameters frame parameters arguments).bind
    intro _
    apply ((moves_statements inner frame ss .null).nested limits).calling.bind
    intro v
    show Moves g _ (pure (v.move g).unwrapped)
    rw [Value.unwrapped_move]
    exact moves_pure _

theorem moves_call (setting : Setting) (callee : Value) (arguments : List Value) :
    Moves g (call setting eval callee arguments)
      (call setting eval' (callee.move g) (move g arguments)) := by
  cases callee with
  | function function => exact moves_callClosure inner setting.limits function arguments
  | native function => exact moves_callNative setting function arguments
  | _ => exact moves_fail _

theorem moves_node (setting : Setting) (frame : FrameId) (e : Expression) :
    Moves g (node setting eval frame e) (node setting eval' frame (e.move g)) := by
  cases e with
  | identifier name => exact moves_lookup frame name.name
  | integer _ value => exact moves_pure (Value.number _)
  | float _ value => exact moves_pure (Value.number _)
  | boolean _ value => exact moves_pure (Value.boolean _)
  | string _ value => exact moves_pure (Value.string _)
  | null _ => exact moves_pure Value.null
  | unary _ op operand =>
    exact (inner operand frame).bind fun v => moves_ofExcept (op.apply_move g v)
  | binary _ op left right =>
    exact (inner left frame).bind fun v => (inner right frame).bind fun w =>
      moves_ofExcept (op.apply_move g v w)
  | assign _ target value =>
    exact (inner value frame).bind fun v => moves_assign frame target.name v
  | conditional _ condition consequence alternative =>
    exact moves_conditional inner frame condition consequence alternative
  | function _ parameters body => exact moves_closure frame none parameters body
  | call _ callee arguments =>
    exact (inner callee frame).bind fun f => (moves_values inner frame arguments).bind fun vs =>
      moves_call inner setting f vs
  | member _ object property computed =>
    apply (inner object frame).bind
    intro v
    -- the key is the value of an expression, or the text of its token
    cases computed with
    | true =>
      apply (inner property frame).bind
      intro w
      have key : (w.move g).key = w.key.map (move g) := by
        rw [Value.key_move]
        cases w.key <;> rfl
      exact (moves_ofExcept key).bind fun key => moves_ofExcept (Value.member_move key v)
    | false =>
      have text : (property.move g).token.text = property.token.text := by cases property <;> rfl
      rw [text]
      exact (moves_pure property.token.text).bind fun key =>
        moves_ofExcept (Value.member_move key v)
  | object _ ps =>
    apply (moves_properties inner frame ps).bind
    intro entries
    apply moves_newIdentity.bind
    intro identity
    have entries : Table.ofList (move g entries) = Value.moveAll g (Table.ofList entries) := by
      rw [Table.ofList_move, Value.moveAll_eq]
    rw [entries]
    exact moves_pure (Value.object identity _)

end Inner

theorem moves_expression (setting : Setting) (bound : Nat) (e : Expression) (frame : FrameId) :
    Moves g (expression setting bound e frame) (expression setting bound (e.move g) frame) := by
  induction bound generalizing e frame with
  | zero => exact moves_exhausted
  | succ bound ih => exact (moves_node ih setting frame e).nested setting.limits

theorem moves_evaluate (setting : Setting) (e : Expression) (frame : FrameId) :
    Moves g (evaluate setting e frame) (evaluate setting (e.move g) frame) :=
  fun s => moves_expression setting (setting.limits.evaluation - s.depth + 1) e frame s

/-- A program at other places runs as the program does, and leaves all it makes at the other
places. -/
theorem moves_program (setting : Setting) (frame : FrameId) (p : Program) :
    Moves g (program setting frame p) (program setting frame (p.move g)) := by
  apply (moves_statements (moves_evaluate setting) frame p .null).bind
  intro v
  show Moves g _ (pure (v.move g).unwrapped)
  rw [Value.unwrapped_move]
  exact moves_pure _

end Guion.Run
