import Guion.Proofs.Evaluation.Limits

/-!
# Evaluation ends

Every evaluation ends with a value or a runtime error, whatever functions the heap holds
(`evaluation_returns`).  Every way back into an expression, through the bodies of functions as well,
raises the depth, and all steps leave the depth as they found it (`Balanced`), so a bound larger
than the depth still allowed does not run out (`settles_expression`).

Since a bound that does not run out does not matter, the evaluation satisfies the equation of the
recursion without any bound (`evaluate_eq`).
-/

set_option autoImplicit false

namespace Guion

open Run Bounded

variable {α β : Type}

/-! ## Counters -/

/-- The counters are as they were. -/
structure Balanced (s t : Machine) : Prop where
  depth : t.depth = s.depth
  calls : t.calls = s.calls

instance : IsPreorder Machine Balanced where
  refl _ := ⟨rfl, rfl⟩
  trans _ _ _ h h' := ⟨h'.depth.trans h.depth, h'.calls.trans h.calls⟩

/-! ## Steps from a machine -/

theorem lookup_apply (frame : FrameId) (name : String) (s : Machine) :
    lookup frame name s =
      match s.heap.lookup frame name with
      | .ok value => .ok value s
      | .error e => .error (.error e) s := by
  show (match s.heap.lookup frame name with
    | .ok value => Pure.pure value
    | .error e => fail e : Run Value) s = _
  cases s.heap.lookup frame name <;> rfl

theorem write_apply (text : String) (s : Machine) :
    write text s =
      if s.sink.accepts text then .ok () { s with sink := s.sink.append text }
      else .error (.error (.native "I/O error: output limit reached")) s := by
  show (if s.sink.accepts text then _ else _ : Run Unit) s = _
  split <;> rfl

theorem nested_apply (limits : Limits) (p : Run α) (s : Machine) :
    nested limits p s =
      if limits.evaluation ≤ s.depth then .error (.error (.stackOverflow limits.evaluation)) s
      else
        ensuring (fun s => { s with depth := s.depth - 1 }) p { s with depth := s.depth + 1 } := by
  show (if limits.evaluation ≤ s.depth then _ else _ : Run α) s = _
  split <;> rfl

theorem admitted_apply (limits : Limits) (p : Run α) (s : Machine) :
    admitted limits p s =
      if limits.calls ≤ s.calls then .error (.error (.stackOverflow limits.calls)) s else p s := by
  show (if limits.calls ≤ s.calls then _ else _ : Run α) s = _
  split <;> rfl

/-- The run ends with a value or a runtime error, and the counters are as they were at `s`. -/
inductive Ends (s : Machine) : EStateM.Result (Stop RuntimeError) Machine α → Prop
  | ok {a : α} {t : Machine} : Balanced s t → Ends s (.ok a t)
  | error {cause : RuntimeError} {t : Machine} : Balanced s t → Ends s (.error (.error cause) t)

/-- What ends from where a balanced run got to, ends from its start. -/
theorem Ends.after {s t : Machine} {r : EStateM.Result (Stop RuntimeError) Machine α}
    (h : Ends t r) (before : Balanced s t) : Ends s r := by
  cases h with
  | ok kept => exact .ok (IsTrans.trans s t _ before kept)
  | error kept => exact .error (IsTrans.trans s t _ before kept)

/-- The bound on the recursion ran out. -/
def OutOfBound (stop : Stop RuntimeError) : Prop := stop = .exhausted

theorem outOfBound_exhausted : OutOfBound .exhausted := rfl

theorem Ends.unexcused {s : Machine} {r : EStateM.Result (Stop RuntimeError) Machine α}
    (h : Ends s r) : ¬ Excused OutOfBound r := by
  cases h with
  | ok _ => exact id
  | error _ => exact nofun

/-- Every run from a machine in `P` ends. -/
def Settles (P : Machine → Prop) (p : Run α) : Prop := ∀ s, P s → Ends s (p s)

theorem Ends.ensuring {s s' : Machine} {p : Run α} {after : Machine → Machine}
    (h : Ends s' (p s')) (restored : ∀ t, Balanced s' t → Balanced s (after t)) :
    Ends s (ensuring after p s') := by
  rw [Bounded.ensuring]
  cases run : p s' with
  | ok a t =>
    rw [run] at h
    cases h with
    | ok kept => exact .ok (restored t kept)
  | error stop t =>
    rw [run] at h
    cases h with
    | error kept => exact .error (restored t kept)

/-- The depth still allowed is below the bound. -/
def Allowed (limits : Limits) (bound : Nat) (s : Machine) : Prop :=
  limits.evaluation - s.depth < bound

/-- Inside a nested computation the depth still allowed is one less. -/
theorem settles_nested {limits : Limits} {bound : Nat} {p : Run α}
    (h : Settles (Allowed limits bound) p) :
    Settles (Allowed limits (bound + 1)) (nested limits p) := by
  intro s allowed
  rw [nested_apply]
  split
  · exact .error ⟨rfl, rfl⟩
  -- below the limit there is depth left, and entering takes one of it
  · have inside : Allowed limits bound { s with depth := s.depth + 1 } := by
      simp only [Allowed] at allowed ⊢
      omega
    apply (h _ inside).ensuring
    intro t kept
    exact ⟨congrArg (· - 1) kept.depth, kept.calls⟩

theorem settles_calling {limits : Limits} {bound : Nat} {p : Run α}
    (h : Settles (Allowed limits bound) p) : Settles (Allowed limits bound) (calling p) := by
  intro s allowed
  have inside : Allowed limits bound { s with calls := s.calls + 1 } := allowed
  apply (h _ inside).ensuring
  intro t kept
  exact ⟨kept.depth, congrArg (· - 1) kept.calls⟩

/-! ## Evaluation -/

section Settles

variable {P : Machine → Prop} (kept : ∀ s t, Balanced s t → P s → P t)

include kept

theorem Settles.bind {p : Run α} {f : α → Run β} (first : Settles P p)
    (rest : ∀ a, Settles P (f a)) : Settles P (p >>= f) := by
  intro s hs
  have ends := first s hs
  cases run : p s with
  | ok a t =>
    rw [run] at ends
    rw [bind_of_ok run]
    cases ends with
    | ok before => exact (rest a t (kept s t before hs)).after before
  | error stop t =>
    rw [run] at ends
    rw [bind_of_error run]
    cases ends with
    | error before => exact .error before

theorem invariant_settles (setting : Setting) : Invariant setting fun _ => Settles P where
  pure _ _ _ := .ok ⟨rfl, rfl⟩
  fail _ _ _ := .error ⟨rfl, rfl⟩
  bind := .bind kept
  newFrame _ _ _ := .ok ⟨rfl, rfl⟩
  newIdentity _ _ := .ok ⟨rfl, rfl⟩
  lookup frame name s _ := by
    rw [lookup_apply]
    split
    · exact .ok ⟨rfl, rfl⟩
    · exact .error ⟨rfl, rfl⟩
  declare frame name value constant s _ := by
    rw [declare]
    split
    · exact .ok ⟨rfl, rfl⟩
    · exact .error ⟨rfl, rfl⟩
  assign frame name value s _ := by
    rw [assign]
    split
    · exact .ok ⟨rfl, rfl⟩
    · exact .error ⟨rfl, rfl⟩
  write text s _ := by
    rw [write_apply]
    split
    · exact .ok ⟨rfl, rfl⟩
    · exact .error ⟨rfl, rfl⟩
  readClock _ _ := .ok ⟨rfl, rfl⟩
  admitted h s hs := by
    rw [admitted_apply]
    split
    · exact .error ⟨rfl, rfl⟩
    · exact h s hs

end Settles

theorem allowed_of_balanced {limits : Limits} {bound : Nat} (s t : Machine) (h : Balanced s t)
    (allowed : Allowed limits bound s) : Allowed limits bound t := by
  rw [Allowed, h.depth]
  exact allowed

variable (setting : Setting)

/-- A bound above the depth still allowed does not run out. -/
theorem settles_expression (bound : Nat) (e : Expression) (frame : FrameId) :
    Settles (Allowed setting.limits bound) (expression setting bound e frame) := by
  induction bound generalizing e frame with
  | zero =>
    intro s allowed
    exact absurd allowed (Nat.not_lt_zero _)
  | succ bound ih =>
    have I := invariant_settles (P := Allowed setting.limits bound) allowed_of_balanced setting
    refine settles_nested (I.node ih (fun own ss => ?_) frame e)
    -- the body of a function is nested once more, which leaves room to spare
    have body := settles_calling (settles_nested (I.statements ih own .null ss))
    intro s allowed
    exact body s (Nat.lt_succ_of_lt allowed)

theorem settles_evaluate (e : Expression) (frame : FrameId) :
    Settles (fun _ => True) (evaluate setting e frame) := by
  intro s _
  exact settles_expression setting _ e frame s (Nat.lt_succ_self _)

/-! ## The bound does not matter -/

theorem follows_bound {bound bound' : Nat} (le : bound ≤ bound') (e : Expression)
    (frame : FrameId) :
    Follows OutOfBound (expression setting bound e frame) (expression setting bound' e frame) :=
  follows_expression (.refl setting.limits) rfl outOfBound_exhausted le e frame

/-- A bound above the depth still allowed gives the value. -/
theorem expression_eq_evaluate {bound : Nat} {s : Machine}
    (allowed : Allowed setting.limits bound s) (e : Expression) (frame : FrameId) :
    expression setting bound e frame s = evaluate setting e frame s :=
  follows_bound setting allowed e frame s (settles_evaluate setting e frame s trivial).unexcused

theorem follows_evaluate_of_expression (bound : Nat) (e : Expression) (frame : FrameId) :
    Follows OutOfBound (expression setting bound e frame) (evaluate setting e frame) := by
  intro s unexcused
  -- a bound that suffices gives the value; one that does not follows the one that does
  by_cases allowed : Allowed setting.limits bound s
  · exact (expression_eq_evaluate setting allowed e frame).symm
  · have le : bound ≤ setting.limits.evaluation - s.depth + 1 :=
      Nat.le_succ_of_le (Nat.not_lt.1 allowed)
    exact follows_bound setting le e frame s unexcused

/-- The recursion that evaluation is, without a bound. -/
theorem evaluate_eq (e : Expression) (frame : FrameId) :
    evaluate setting e frame =
      nested setting.limits (node setting (evaluate setting) frame e) := by
  funext s
  have larger : Larger OutOfBound setting.limits setting.limits := .refl _
  have C := congruence_follows larger rfl
  -- one level in, the bound left is the depth still allowed there, or more inside a body
  have inner := follows_evaluate_of_expression setting (setting.limits.evaluation - s.depth)
  have follows := Follows.nested larger (C.node inner
    (fun own ss => (Follows.nested larger (C.statements inner own .null ss)).calling) frame e)
  exact (follows s (settles_evaluate setting e frame s trivial).unexcused).symm

/-- Evaluation ends, from every machine and with whatever functions its heap holds: programs,
statements and expressions yield a value or a runtime error and leave the counters as they were.
Expressions are evaluated by a recursion without a bound, and each bound above the depth still
allowed is as good as none. -/
theorem evaluation_returns (frame : FrameId) (s : Machine) :
    (∀ p : Program, Ends s (program setting frame p s)) ∧
      (∀ statement, Ends s (Run.statement (evaluate setting) frame statement s)) ∧
      (∀ e, Ends s (evaluate setting e frame s)) ∧
      (∀ e, evaluate setting e frame =
        nested setting.limits (node setting (evaluate setting) frame e)) ∧
      ∀ bound, setting.limits.evaluation - s.depth < bound →
        (∀ e, expression setting bound e frame s = evaluate setting e frame s) ∧
          ∀ last ss, statements (expression setting bound) frame last ss s =
            statements (evaluate setting) frame last ss s := by
  have I := invariant_settles (P := fun _ => True) (fun _ _ _ => id) setting
  have inner := settles_evaluate setting
  refine ⟨?_, ?_, ?_, ?_, ?_⟩
  · intro p
    exact I.program inner frame p s trivial
  · intro statement
    exact I.statement inner frame statement s trivial
  · intro e
    exact inner e frame s trivial
  · intro e
    exact evaluate_eq setting e frame
  · intro bound allowed
    constructor
    · intro e
      exact expression_eq_evaluate setting allowed e frame
    · intro last ss
      have ends := (invariant_settles (P := Allowed setting.limits bound) allowed_of_balanced
        setting).statements (settles_expression setting bound) frame last ss s allowed
      have C : Congruence setting setting fun _ => Follows OutOfBound :=
        congruence_follows (.refl setting.limits) rfl
      exact (C.statements (follows_evaluate_of_expression setting bound) frame last ss s
        ends.unexcused).symm

/-- `func otra() { otra() }` and `otra()`: a function in the frame it refers to, which calls itself
without end. -/
def endless : Program :=
  let name : Identifier := ⟨default, "otra"⟩
  let again : Statement := .expression default (.call default (.identifier name) [])
  [.function default name [] (.mk default [again]), again]

theorem endless_returns :
    Ends .oneFrame (program ⟨⟨128, 64, 256⟩, fun _ => 0⟩ 0 endless .oneFrame) ∧
      statements (expression ⟨⟨128, 64, 256⟩, fun _ => 0⟩ 257) 0 .null endless .oneFrame =
        statements (evaluate ⟨⟨128, 64, 256⟩, fun _ => 0⟩) 0 .null endless .oneFrame := by
  obtain ⟨programs, -, -, -, bounds⟩ :=
    evaluation_returns ⟨⟨128, 64, 256⟩, fun _ => 0⟩ 0 .oneFrame
  exact ⟨programs endless, (bounds 257 (by decide)).2 .null endless⟩

end Guion
