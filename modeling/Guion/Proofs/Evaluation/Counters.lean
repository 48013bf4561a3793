import Guion.Proofs.Evaluation.Hooks
import Guion.Proofs.Session

/-!
# Counters

Evaluation leaves both counters as it found them, however it ends, and while it runs neither counter
exceeds its limit nor would have to go below zero (`counters_balanced`).

What happens while an evaluation runs is stated with hooks that check every change of a counter
(`Checked.hooks`): the evaluation stops as soon as a counter exceeds its limit, and where a counter
that is zero would have to be lowered.  No check ever fails: from every machine with counters within
the limits it gives the result of the evaluation itself, which does not check.

Between the source texts of a session the counters are zero, so each text runs as in a new machine
on the same heap and output.
-/

set_option autoImplicit false

namespace Guion

open Run Bounded

variable {α : Type}

/-! ## Checked counters -/

/-- Both counters are within the limits. -/
def Within (limits : Limits) (s : Machine) : Prop :=
  s.depth ≤ limits.evaluation ∧ s.calls ≤ limits.calls

instance (limits : Limits) (s : Machine) : Decidable (Within limits s) :=
  inferInstanceAs (Decidable (_ ∧ _))

/-- The counters of a machine. -/
inductive Counter where
  | depth
  | calls

namespace Counter

/-- The value of a counter. -/
def value : Counter → Machine → Nat
  | .depth, s => s.depth
  | .calls, s => s.calls

/-- The machine with a counter raised by one. -/
def raised : Counter → Machine → Machine
  | .depth, s => { s with depth := s.depth + 1 }
  | .calls, s => { s with calls := s.calls + 1 }

/-- The machine with a counter lowered by one. -/
def lowered : Counter → Machine → Machine
  | .depth, s => { s with depth := s.depth - 1 }
  | .calls, s => { s with calls := s.calls - 1 }

theorem value_of_balanced {counter : Counter} {s t : Machine}
    (kept : Balanced (counter.raised s) t) : counter.value t = counter.value s + 1 := by
  cases counter with
  | depth => exact kept.depth
  | calls => exact kept.calls

theorem balanced_lowered {counter : Counter} {s t : Machine}
    (kept : Balanced (counter.raised s) t) : Balanced s (counter.lowered t) := by
  cases counter with
  | depth => exact ⟨congrArg (· - 1) kept.depth, kept.calls⟩
  | calls => exact ⟨kept.depth, congrArg (· - 1) kept.calls⟩

end Counter

namespace Checked

/-- Runs `act` with a counter raised and lowers the counter again, however `act` ends.  Stops at
once if a counter exceeds its limit then, and if the counter to be lowered is zero. -/
def counting (limits : Limits) (counter : Counter) (act : Run α) : Run α := fun s =>
  if Within limits (counter.raised s) then
    match act (counter.raised s) with
    | .ok a t => if counter.value t = 0 then .error .exhausted t else .ok a (counter.lowered t)
    | .error stop t =>
      if counter.value t = 0 then .error .exhausted t else .error stop (counter.lowered t)
  else .error .exhausted s

/-- Counts `act` as one more expression or call being evaluated, with checks. -/
def nested (limits : Limits) (act : Run α) : Run α := fun s =>
  if limits.evaluation ≤ s.depth then .error (.error (.stackOverflow limits.evaluation)) s
  else counting limits .depth act s

/-- Every change of a counter is checked. -/
def hooks (limits : Limits) : Hooks :=
  { Hooks.plain limits with calling := counting limits .calls, nested := Checked.nested limits }

end Checked

/-! ## Checks do not fail -/

/-- Counting with checks is counting, where the raised counters are within the limits. -/
theorem counting_agrees {limits : Limits} {counter : Counter} {p q : Run α} {s : Machine}
    (within : Within limits (counter.raised s))
    (inside : Ends (counter.raised s) (p (counter.raised s)) ∧
      q (counter.raised s) = p (counter.raised s)) :
    Ends s (ensuring counter.lowered p (counter.raised s)) ∧
      Checked.counting limits counter q s = ensuring counter.lowered p (counter.raised s) := by
  obtain ⟨ends, same⟩ := inside
  refine ⟨ends.ensuring fun t kept => Counter.balanced_lowered kept, ?_⟩
  rw [Checked.counting, if_pos within, same, Bounded.ensuring]
  -- what `p` leaves the counter at is one more than before, so it can be lowered
  cases run : p (counter.raised s) with
  | ok a t =>
    rw [run] at ends
    cases ends with
    | ok kept =>
      have value := Counter.value_of_balanced kept
      exact if_neg (by omega)
  | error stop t =>
    rw [run] at ends
    cases ends with
    | error kept =>
      have value := Counter.value_of_balanced kept
      exact if_neg (by omega)

theorem within_of_balanced {limits : Limits} (s t : Machine) (h : Balanced s t)
    (within : Within limits s) : Within limits t := by
  rw [Within, h.depth, h.calls]
  exact within

/-- The counters are within the limits, and the depth still allowed is below the bound. -/
def Roomy (limits : Limits) (bound : Nat) (s : Machine) : Prop :=
  Within limits s ∧ Allowed limits bound s

theorem roomy_of_balanced {limits : Limits} {bound : Nat} (s t : Machine) (h : Balanced s t)
    (roomy : Roomy limits bound s) : Roomy limits bound t :=
  ⟨within_of_balanced s t h roomy.1, allowed_of_balanced s t h roomy.2⟩

section Counting

variable {limits : Limits} {bound : Nat} {p q : Run α}

/-- Below the limit on the depth, a nested computation starts with room left. -/
theorem roomy_raised {s : Machine} (roomy : Roomy limits (bound + 1) s)
    (below : ¬ limits.evaluation ≤ s.depth) : Roomy limits bound (Counter.depth.raised s) := by
  obtain ⟨⟨-, calls⟩, allowed⟩ := roomy
  simp only [Roomy, Within, Allowed, Counter.raised] at allowed ⊢
  omega

theorem agrees_checked_nested (h : Agrees (Roomy limits bound) p q) :
    Agrees (Roomy limits (bound + 1)) (nested limits p) (Checked.nested limits q) := by
  intro s roomy
  rw [nested_apply, Checked.nested]
  split
  · exact ⟨.error ⟨rfl, rfl⟩, rfl⟩
  · rename_i below
    have inside := roomy_raised roomy below
    exact counting_agrees inside.1 (h _ inside)

/-- There is also room for one more call. -/
def Callable (limits : Limits) (bound : Nat) (s : Machine) : Prop :=
  Roomy limits bound s ∧ s.calls < limits.calls

theorem callable_of_balanced (s t : Machine) (h : Balanced s t)
    (callable : Callable limits bound s) : Callable limits bound t :=
  ⟨roomy_of_balanced s t h callable.1, h.calls ▸ callable.2⟩

theorem agrees_checked_calling (h : Agrees (Roomy limits bound) p q) :
    Agrees (Callable limits bound) (calling p) (Checked.counting limits .calls q) := by
  intro s callable
  obtain ⟨⟨⟨depth, -⟩, allowed⟩, room⟩ := callable
  have inside : Roomy limits bound (Counter.calls.raised s) := ⟨⟨depth, room⟩, allowed⟩
  exact counting_agrees inside.1 (h _ inside)

end Counting

namespace Checked

/-- There is room everywhere, and in a call that was admitted also for one more call. -/
def course (limits : Limits) : Course where
  outside bound := ⟨Roomy limits bound, roomy_of_balanced⟩
  inside bound := ⟨Roomy limits bound, roomy_of_balanced⟩
  entering bound := ⟨Roomy limits bound, roomy_of_balanced⟩
  called bound := ⟨Callable limits bound, callable_of_balanced⟩

theorem inert (setting : Setting) :
    (hooks setting.limits).Inert setting (course setting.limits) where
  used := rfl
  settled := rfl
  yielded _ := rfl
  bounded _ roomy := absurd roomy.2 (Nat.not_lt_zero _)
  outside_of_inside := id
  outside_of_entering := id
  entering_of_inside roomy _ := roomy
  expression := agrees_checked_nested
  entered h := h
  admitted h := h.admitted fun _ roomy room => ⟨roomy, room⟩
  body h := by
    -- the body of a function is nested once more, which leaves room to spare
    refine (agrees_checked_calling (agrees_checked_nested h)).mono ?_
    rintro s ⟨⟨within, allowed⟩, room⟩
    exact ⟨⟨within, Nat.lt_succ_of_lt allowed⟩, room⟩

end Checked

/-! ## Sessions -/

theorem Ends.balanced {s : Machine} {r : EStateM.Result (Stop RuntimeError) Machine α}
    (h : Ends s r) : Balanced s (final r) := by
  cases h with
  | ok kept => exact kept
  | error kept => exact kept

theorem keeps_balanced (setting : Setting) (frame : FrameId) (p : Program) :
    Keeps Balanced (program setting frame p) := by
  constructor
  intro s
  have I := invariant_settles (P := fun _ => True) (fun _ _ _ => id) setting
  exact (I.program (settles_evaluate setting) frame p s trivial).balanced

/-- A machine with both counters at zero and the same heap and output. -/
def Machine.renewed (s : Machine) : Machine := { s with depth := 0, calls := 0 }

/-- The session with a new machine on its heap and output. -/
def Session.renewed (session : Session) : Session :=
  { session with machine := session.machine.renewed }

theorem Machine.renewed_of_balanced {s t : Machine} (h : Balanced s.renewed t) : t.renewed = t := by
  obtain ⟨heap, fresh, sink, readings, depth, calls⟩ := t
  cases show depth = 0 from h.depth
  cases show calls = 0 from h.calls
  rfl

theorem Session.renewed_after (session : Session) (sources : List String) :
    (session.renewed.after sources).renewed = session.renewed.after sources := by
  have along := along_after keeps_balanced session.renewed sources
  have same := Machine.renewed_of_balanced along.machine
  rw [Session.renewed, same]

/-- The counters are balanced.  From every machine with counters within the limits, evaluation of a
program, a statement or an expression ends with the counters as they were, whatever it ends with;
and the evaluation that stops as soon as a counter exceeds its limit, or would go below zero, gives
the same result.  So in a session of texts that succeed or fail, each text is evaluated as in a new
machine on the same heap and output. -/
theorem counters_balanced :
    (∀ (setting : Setting) (frame : FrameId) (s : Machine), Within setting.limits s →
      ∀ phrase : Phrase, Ends s (phrase.run setting frame s) ∧
        (Checked.hooks setting.limits).run setting frame phrase s = phrase.run setting frame s) ∧
      ∀ (session : Session) (sources : List String) (source : String),
        (session.renewed.after sources).eval source =
          (session.renewed.after sources).renewed.eval source := by
  constructor
  · intro setting frame s within phrase
    have agrees := (Checked.inert setting).agrees_run ⟨Within setting.limits, within_of_balanced⟩
      (fun s within => ⟨within, Nat.lt_succ_self _⟩) frame phrase
    exact agrees s within
  · intro session sources source
    rw [Session.renewed_after]

/-- The endless recursion ends at a limit, and no check fails on the way there and back. -/
theorem counters_balanced_endless :
    Within ⟨128, 64, 256⟩ .oneFrame ∧
      Ends .oneFrame (program ⟨⟨128, 64, 256⟩, fun _ => 0⟩ 0 endless .oneFrame) ∧
      (Checked.hooks ⟨128, 64, 256⟩).run ⟨⟨128, 64, 256⟩, fun _ => 0⟩ 0 (.program endless)
          .oneFrame =
        program ⟨⟨128, 64, 256⟩, fun _ => 0⟩ 0 endless .oneFrame := by
  have within : Within ⟨128, 64, 256⟩ .oneFrame := by decide
  exact ⟨within, counters_balanced.1 ⟨⟨128, 64, 256⟩, fun _ => 0⟩ 0 .oneFrame within
    (.program endless)⟩

end Guion