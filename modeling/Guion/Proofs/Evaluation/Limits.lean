import Guion.Proofs.Bounded
import Guion.Proofs.Evaluation.Congruence

/-!
# Larger limits

A run that did not reach a limit is the same under larger limits (`outcome_of_larger_limits`).

No construct looks at how an evaluation inside it stopped, so the relation needed between a run and
the run under larger limits is that they agree unless the first one stops for a reason that is
excused (`Follows`).  The two runs start from one machine, and as long as they agree their counters
agree as well, so the machine does not have to be related to another.  The bound on the recursion is
one more limit, with an excuse of its own: under the same limits, a run with a larger bound follows
one with a smaller bound (`follows_expression`).
-/

set_option autoImplicit false

namespace Guion

open Run Bounded

variable {α β : Type} {excuse : Stop RuntimeError → Prop}

/-- The run stopped for a reason that is excused. -/
def Excused (excuse : Stop RuntimeError → Prop) :
    EStateM.Result (Stop RuntimeError) Machine α → Prop
  | .ok _ _ => False
  | .error stop _ => excuse stop

/-- Every run of `q` is as that of `p` from the same machine, unless that of `p` is excused. -/
def Follows (excuse : Stop RuntimeError → Prop) (p q : Run α) : Prop :=
  ∀ s, ¬ Excused excuse (p s) → q s = p s

theorem Follows.refl (p : Run α) : Follows excuse p p := fun _ _ => rfl

theorem follows_fail {cause : RuntimeError} (excused : excuse (.error cause)) (q : Run α) :
    Follows excuse (fail cause) q :=
  fun _ unexcused => absurd excused unexcused

theorem Follows.bind {p q : Run α} {f g : α → Run β} (first : Follows excuse p q)
    (rest : ∀ a, Follows excuse (f a) (g a)) : Follows excuse (p >>= f) (q >>= g) := by
  intro s unexcused
  cases run : p s with
  | ok a t =>
    have same : q s = .ok a t := by
      rw [first s (by rw [run]; exact id), run]
    -- both runs go on from the same machine
    rw [bind_of_ok run] at unexcused ⊢
    rw [bind_of_ok same]
    exact rest a t unexcused
  | error stop t =>
    rw [bind_of_error run] at unexcused ⊢
    have same : q s = .error stop t := by
      rw [first s (by rw [run]; exact unexcused), run]
    rw [bind_of_error same]

theorem Follows.ensuring {p q : Run α} (after : Machine → Machine) (h : Follows excuse p q) :
    Follows excuse (ensuring after p) (ensuring after q) := by
  intro s unexcused
  have same : q s = p s := by
    refine h s fun excused => unexcused ?_
    rw [Bounded.ensuring]
    cases run : p s with
    | ok a t => rw [run] at excused; exact excused
    | error stop t => rw [run] at excused; exact excused
  simp only [Bounded.ensuring, same]

theorem Follows.calling {p q : Run α} (h : Follows excuse p q) :
    Follows excuse (calling p) (calling q) :=
  (Follows.refl _).bind fun _ => h.ensuring _

/-! ## Limits -/

/-- The limit is the same, or it is larger and to reach the smaller one is excused. -/
def Raised (excuse : Stop RuntimeError → Prop) (limit limit' : Nat) : Prop :=
  limit' = limit ∨ limit ≤ limit' ∧ excuse (.error (.stackOverflow limit))

theorem Raised.le {limit limit' : Nat} (h : Raised excuse limit limit') : limit ≤ limit' := by
  rcases h with rfl | ⟨le, -⟩
  · exact Nat.le_refl _
  · exact le

/-- Both limits on evaluation are the same or raised. -/
structure Larger (excuse : Stop RuntimeError → Prop) (limits limits' : Limits) : Prop where
  calls : Raised excuse limits.calls limits'.calls
  evaluation : Raised excuse limits.evaluation limits'.evaluation

theorem Larger.refl (limits : Limits) : Larger excuse limits limits := ⟨.inl rfl, .inl rfl⟩

/-- What runs below a limit runs below a raised one. -/
theorem Follows.below {limit limit' : Nat} (raised : Raised excuse limit limit') {p q : Run α}
    (h : Follows excuse p q) (n : Nat) :
    Follows excuse (if limit ≤ n then fail (.stackOverflow limit) else p)
      (if limit' ≤ n then fail (.stackOverflow limit') else q) := by
  rcases raised with rfl | ⟨le, excused⟩
  · split
    · exact .refl _
    · exact h
  -- a run that reaches the smaller limit is excused, and below it both runs go on
  · by_cases reached : limit ≤ n
    · rw [if_pos reached]
      exact follows_fail excused _
    · rw [if_neg reached, if_neg (by omega)]
      exact h

section Settings

variable {setting setting' : Setting} (larger : Larger excuse setting.limits setting'.limits)

include larger

theorem Follows.nested {p q : Run α} (h : Follows excuse p q) :
    Follows excuse (nested setting.limits p) (nested setting'.limits q) := by
  refine (Follows.refl _).bind fun s => ?_
  exact .below larger.evaluation ((Follows.refl _).bind fun _ => h.ensuring _) s.depth

variable (clock : setting'.clock = setting.clock)

include clock

theorem congruence_follows : Congruence setting setting' (fun _ => Follows excuse) where
  pure _ := .refl _
  fail _ := .refl _
  bind := .bind
  newFrame _ := .refl _
  newIdentity := .refl _
  lookup _ _ := .refl _
  declare _ _ _ _ := .refl _
  assign _ _ _ := .refl _
  write _ := .refl _
  readClock := by
    unfold readClock
    rw [clock]
    exact .refl _
  admitted h := (Follows.refl _).bind fun s => .below larger.calls h s.calls

/-- More of the bound, and larger limits, change an evaluation only where it ran out of them. -/
theorem follows_expression (exhausted : excuse .exhausted) {bound bound' : Nat}
    (le : bound ≤ bound') (e : Expression) (frame : FrameId) :
    Follows excuse (expression setting bound e frame) (expression setting' bound' e frame) := by
  induction bound generalizing bound' e frame with
  | zero => exact fun _ unexcused => absurd exhausted unexcused
  | succ bound ih =>
    -- both evaluations go one level in, with bounds that are still ordered
    obtain ⟨bound', rfl⟩ : ∃ n, bound' = n + 1 := ⟨bound' - 1, by omega⟩
    have inner (e : Expression) (frame : FrameId) :
        Follows excuse (expression setting bound e frame) (expression setting' bound' e frame) :=
      ih (by omega) e frame
    have C := congruence_follows larger clock
    refine Follows.nested larger (C.node inner (fun own ss => ?_) frame e)
    exact (Follows.nested larger (C.statements inner own _ ss)).calling

theorem follows_evaluate (exhausted : excuse .exhausted) (e : Expression) (frame : FrameId) :
    Follows excuse (evaluate setting e frame) (evaluate setting' e frame) := by
  intro s unexcused
  have le := larger.evaluation.le
  exact follows_expression larger clock exhausted (by omega) e frame s unexcused

theorem follows_program (exhausted : excuse .exhausted) (frame : FrameId) (p : Program) :
    Follows excuse (program setting frame p) (program setting' frame p) :=
  (congruence_follows larger clock).program (follows_evaluate larger clock exhausted) frame p

end Settings

/-- Reaching a limit, or the bound on the recursion. -/
def Overflow : Stop RuntimeError → Prop
  | .error (.stackOverflow _) => True
  | .error _ => False
  | .exhausted => True

theorem larger_of_le {limits limits' : Limits} (calls : limits.calls ≤ limits'.calls)
    (evaluation : limits.evaluation ≤ limits'.evaluation) : Larger Overflow limits limits' :=
  ⟨.inr ⟨calls, trivial⟩, .inr ⟨evaluation, trivial⟩⟩

/-- An overflow is reported as such. -/
theorem stackOverflow_of_excused {p : Run α} {s : Machine} (h : Excused Overflow (p s)) :
    ∃ n, (p.outcome s).1 = .error (.stackOverflow n) := by
  rw [outcome]
  cases run : p s with
  | ok a t =>
    rw [run] at h
    cases h
  | error stop t =>
    rw [run] at h
    cases stop with
    | exhausted => exact ⟨0, rfl⟩
    | error cause =>
      cases cause with
      | stackOverflow n => exact ⟨n, rfl⟩
      | _ => cases h

/-- A program that ends without an overflow ends in the same way, with the same result and in the
same machine, under any limits on evaluation that are at least as large. -/
theorem outcome_of_larger_limits {limits limits' : Limits} (calls : limits.calls ≤ limits'.calls)
    (evaluation : limits.evaluation ≤ limits'.evaluation) (clock : Nat → Int) (frame : FrameId)
    (p : Program) (s : Machine)
    (h : ∀ n, ((program ⟨limits, clock⟩ frame p).outcome s).1 ≠ .error (.stackOverflow n)) :
    (program ⟨limits', clock⟩ frame p).outcome s = (program ⟨limits, clock⟩ frame p).outcome s := by
  have larger : Larger Overflow limits limits' := larger_of_le calls evaluation
  have unexcused : ¬ Excused Overflow (program ⟨limits, clock⟩ frame p s) := by
    intro excused
    obtain ⟨n, overflow⟩ := stackOverflow_of_excused excused
    exact h n overflow
  have follows : Follows Overflow (program ⟨limits, clock⟩ frame p)
      (program ⟨limits', clock⟩ frame p) := follows_program larger (Eq.refl clock) trivial frame p
  simp only [outcome, follows s unexcused]

/-- A call of `func() { regresa verdadero; }`. -/
def immediate : Program :=
  [.expression default (.call default (.function default []
    (.mk default [.result default (some (.boolean default true))])) [])]

/-- A machine with one frame, in which nothing is bound. -/
def Machine.oneFrame : Machine :=
  { Machine.empty none with heap := Heap.empty.push (.empty none) }

/-- One call at a time, and three expressions or calls, are enough for `immediate`. -/
theorem outcome_immediate_of_larger_limits :
    ((program ⟨⟨1, 0, 3⟩, fun _ => 0⟩ 0 immediate).outcome .oneFrame).1 = .ok (.boolean true) ∧
      (program ⟨⟨128, 64, 256⟩, fun _ => 0⟩ 0 immediate).outcome .oneFrame =
        (program ⟨⟨1, 0, 3⟩, fun _ => 0⟩ 0 immediate).outcome .oneFrame := by
  have run : ((program ⟨⟨1, 0, 3⟩, fun _ => 0⟩ 0 immediate).outcome .oneFrame).1 =
      .ok (.boolean true) := rfl
  refine ⟨run, outcome_of_larger_limits (by decide) (by decide) _ _ _ _ fun n overflow => ?_⟩
  rw [run] at overflow
  cases overflow

end Guion
