import Guion.Proofs.Evaluation.Counters

/-!
# When the limit on calls cannot be reached

A call takes two levels of depth, one for the expression that calls and one for the body, so where
a function is entered the depth is at least twice the calls and one more.  The callee was evaluated
one level further in before that.  If the limit on the depth is at most twice the limit on calls and
one more, the depth therefore runs out first, and the limit on calls does not matter
(`call_limit_inert`).

What holds wherever a function is entered is stated with hooks that assert it there
(`Asserted.hooks`).  They take as an argument how a call is admitted: as always, or without any
limit, where the depth is the only thing that can overflow.
-/

set_option autoImplicit false

namespace Guion

open Run Bounded

variable {α : Type}

/-- The setting with another limit on calls. -/
def Setting.withCalls (setting : Setting) (calls : Nat) : Setting :=
  { setting with limits := { setting.limits with calls } }

/-! ## Assertions where functions are entered -/

/-- Runs `act`, but stops at once where `holds` does not. -/
def asserting (holds : Machine → Prop) [DecidablePred holds] (act : Run α) : Run α := fun s =>
  if holds s then act s else .error .exhausted s

/-- Where a function of a program is entered, `holds` is asserted; a call is admitted as far as
`pass` lets it. -/
def Asserted.hooks (holds : Machine → Prop) [DecidablePred holds] (pass : Run Value → Run Value)
    (limits : Limits) : Hooks :=
  { Hooks.plain limits with entered := asserting holds, admitted := pass }

namespace Hooks

variable (hooks : Hooks) (setting : Setting) (calls : Nat)

theorem node_withCalls (eval : Evaluator) (frame : FrameId) (e : Expression) :
    hooks.node (setting.withCalls calls) eval frame e = hooks.node setting eval frame e := by
  have callee (function : Value) (arguments : List Value) :
      hooks.call (setting.withCalls calls) eval function arguments =
        hooks.call setting eval function arguments := by
    cases function <;> rfl
  cases e with
  | call _ _ _ => simp only [node, callee]
  | _ => rfl

theorem expression_withCalls (bound : Nat) :
    hooks.expression (setting.withCalls calls) bound = hooks.expression setting bound := by
  induction bound with
  | zero => rfl
  | succ bound ih =>
    funext e frame
    show hooks.yielded e (hooks.nested (hooks.node _ (hooks.expression _ bound) frame e)) = _
    rw [ih, node_withCalls]
    rfl

/-- Only the hooks depend on the limit on calls. -/
theorem run_withCalls (frame : FrameId) (phrase : Phrase) :
    hooks.run (setting.withCalls calls) frame phrase = hooks.run setting frame phrase := by
  have same : hooks.evaluate (setting.withCalls calls) = hooks.evaluate setting := by
    funext e frame s
    rw [evaluate, expression_withCalls]
    rfl
  cases phrase with
  | program p => rw [run, run, same]
  | statement s => rw [run, run, same]
  | expression e => rw [run, run, same]

end Hooks

/-! ## The depth against the calls -/

/-- The depth is at least twice the calls, and the depth still allowed is below the bound. -/
def Paired (limits : Limits) (bound : Nat) (s : Machine) : Prop :=
  2 * s.calls ≤ s.depth ∧ Allowed limits bound s

/-- As inside an expression: the depth is at least one more than twice the calls. -/
def Unpaired (limits : Limits) (bound : Nat) (s : Machine) : Prop :=
  2 * s.calls + 1 ≤ s.depth ∧ Allowed limits bound s

/-- As where a function is entered: one level further in is below the limit as well. -/
def Entering (limits : Limits) (bound : Nat) (s : Machine) : Prop :=
  Unpaired limits bound s ∧ s.depth < limits.evaluation

section Balanced

variable {limits : Limits} {bound : Nat} (s t : Machine) (h : Balanced s t)

include h

theorem paired_of_balanced (paired : Paired limits bound s) : Paired limits bound t := by
  rw [Paired, h.depth, h.calls]
  exact ⟨paired.1, allowed_of_balanced s t h paired.2⟩

theorem unpaired_of_balanced (unpaired : Unpaired limits bound s) : Unpaired limits bound t := by
  rw [Unpaired, h.depth, h.calls]
  exact ⟨unpaired.1, allowed_of_balanced s t h unpaired.2⟩

theorem entering_of_balanced (entering : Entering limits bound s) : Entering limits bound t :=
  ⟨unpaired_of_balanced s t h entering.1, h.depth ▸ entering.2⟩

end Balanced

section Agreement

variable {P : Machine → Prop} {p q : Run α}

/-- An assertion that holds does not show. -/
theorem agrees_asserting {holds : Machine → Prop} [DecidablePred holds] (h : Agrees P p q)
    (holding : ∀ s, P s → holds s) : Agrees P p (asserting holds q) := by
  intro s hs
  rw [asserting, if_pos (holding s hs)]
  exact h s hs

/-- A limit that is not reached does not show. -/
theorem agrees_admitted {limits : Limits} (h : Agrees P p q)
    (below : ∀ s, P s → s.calls < limits.calls) : Agrees P (admitted limits p) q := by
  intro s hs
  rw [admitted_apply, if_neg (Nat.not_le.2 (below s hs))]
  exact h s hs

end Agreement

/-! ## Evaluation -/

namespace Asserted

/-- An expression is evaluated with the depth at least twice the calls, and what is inside it with
one more. -/
def course (limits : Limits) : Course where
  outside bound := ⟨Paired limits bound, paired_of_balanced⟩
  inside bound := ⟨Unpaired limits bound, unpaired_of_balanced⟩
  entering bound := ⟨Entering limits bound, entering_of_balanced⟩
  called bound := ⟨Entering limits bound, entering_of_balanced⟩

section Inert

variable (setting : Setting) (holds : Machine → Prop) [DecidablePred holds]
  (pass : Run Value → Run Value)
  (admits : ∀ bound p q, Agrees (Entering setting.limits bound) p q →
    Agrees (Entering setting.limits bound) (admitted setting.limits p) (pass q))
  (holding : ∀ s, 2 * s.calls + 1 ≤ s.depth → s.depth < setting.limits.evaluation → holds s)

include admits holding

theorem inert : (hooks holds pass setting.limits).Inert setting (course setting.limits) where
  used := rfl
  settled := rfl
  yielded _ := rfl
  bounded _ paired := absurd paired.2 (Nat.not_lt_zero _)
  outside_of_inside unpaired := ⟨Nat.le_of_succ_le unpaired.1, unpaired.2⟩
  outside_of_entering entering := ⟨Nat.le_of_succ_le entering.1.1, entering.1.2⟩
  entering_of_inside unpaired below := ⟨unpaired, below⟩
  expression h := by
    refine h.nested ?_
    rintro s ⟨depth, allowed⟩ below
    simp only [course, Unpaired, Allowed] at allowed ⊢
    omega
  entered h := agrees_asserting h fun s entering => holding s entering.1.1 entering.2
  admitted := admits _ _ _
  body {bound _ _} h := by
    -- one more call and one more level, so the depth is still at least twice the calls
    refine Agrees.calling (Q := fun s => 2 * s.calls ≤ s.depth + 1 ∧ Allowed setting.limits bound s)
      (h.nested ?_) ?_
    · rintro s ⟨depth, allowed⟩ below
      simp only [course, Paired, Allowed] at allowed ⊢
      omega
    · rintro s ⟨⟨depth, allowed⟩, -⟩
      have raised : 2 * (s.calls + 1) ≤ s.depth + 1 := by omega
      exact ⟨raised, allowed⟩

/-- Nothing shows of the assertions where the depth is at least twice the calls. -/
theorem agrees_run (frame : FrameId) (phrase : Phrase) :
    Agrees (fun s => 2 * s.calls ≤ s.depth) (phrase.run setting frame)
      ((hooks holds pass setting.limits).run setting frame phrase) := by
  have kept (s t : Machine) (h : Balanced s t) (paired : 2 * s.calls ≤ s.depth) :
      2 * t.calls ≤ t.depth := by
    rw [h.depth, h.calls]
    exact paired
  exact (inert setting holds pass admits holding).agrees_run ⟨_, kept⟩
    (fun s paired => ⟨paired, Nat.lt_succ_self _⟩) frame phrase

end Inert

end Asserted

/-- The depth is at least one more than twice the calls. -/
def Deep (s : Machine) : Prop := 2 * s.calls + 1 ≤ s.depth

instance : DecidablePred Deep := fun s => Nat.decLe (2 * s.calls + 1) s.depth

/-- There are also fewer calls than the limit. -/
def Free (limits : Limits) (s : Machine) : Prop := Deep s ∧ s.calls < limits.calls

instance (limits : Limits) : DecidablePred (Free limits) :=
  fun _ => inferInstanceAs (Decidable (_ ∧ _))

/-- Where the limit on the depth is tight, no phrase is stopped by the limit on calls, under this or
a larger one. -/
theorem run_eq_unlimited {setting : Setting}
    (tight : setting.limits.evaluation ≤ 2 * setting.limits.calls + 1) {calls : Nat}
    (larger : setting.limits.calls ≤ calls) (frame : FrameId) (phrase : Phrase) (s : Machine) :
    (Asserted.hooks (Free setting.limits) id setting.limits).run setting frame phrase s.renewed =
      phrase.run (setting.withCalls calls) frame s.renewed := by
  have below (t : Machine) (deep : Deep t) (room : t.depth < setting.limits.evaluation) :
      t.calls < setting.limits.calls := by
    rw [Deep] at deep
    omega
  have admits (bound : Nat) (p q : Run Value) (same : Agrees (Entering setting.limits bound) p q) :
      Agrees (Entering setting.limits bound) (admitted (setting.withCalls calls).limits p) q := by
    apply agrees_admitted same
    rintro t ⟨⟨deep, -⟩, room⟩
    exact Nat.lt_of_lt_of_le (below t deep room) larger
  have agrees := Asserted.agrees_run (setting.withCalls calls) (Free setting.limits) id admits
    (fun t deep room => ⟨deep, below t deep room⟩) frame phrase
  rw [← Hooks.run_withCalls _ setting calls]
  exact (agrees s.renewed (Nat.le_refl 0)).2

/-- The limit on calls is inert where the limit on the depth is tight.  Take any phrase, evaluated
on any heap with the counters at zero.  Wherever a function is entered the depth is at least one
more than twice the calls.  If the limit on the depth is at most one more than twice the limit on
calls, as it is by default, then the calls are below their limit there as well; the evaluation is
the same as without a limit on calls, so that only the depth can overflow; and it is the same under
a larger one, with the result, the heap and the output. -/
theorem call_limit_inert (setting : Setting) (frame : FrameId) (phrase : Phrase) (s : Machine) :
    (Asserted.hooks Deep (admitted setting.limits) setting.limits).run setting frame phrase
          s.renewed =
        phrase.run setting frame s.renewed ∧
      (setting.limits.evaluation ≤ 2 * setting.limits.calls + 1 →
        (Asserted.hooks (Free setting.limits) id setting.limits).run setting frame phrase
              s.renewed =
            phrase.run setting frame s.renewed ∧
          ∀ calls, setting.limits.calls ≤ calls →
            phrase.run (setting.withCalls calls) frame s.renewed =
              phrase.run setting frame s.renewed) := by
  constructor
  · have agrees := Asserted.agrees_run setting Deep (admitted setting.limits)
      (fun bound p q same => same.admitted fun _ entering _ => entering) (fun t deep _ => deep)
      frame phrase
    exact (agrees s.renewed (Nat.le_refl 0)).2
  · intro tight
    have unlimited := run_eq_unlimited tight (Nat.le_refl _) frame phrase s
    refine ⟨unlimited, fun calls larger => ?_⟩
    rw [← run_eq_unlimited tight larger]
    exact unlimited

/-- Under the default limits a function that calls itself without end runs out of depth, whatever
the limit on calls is raised to. -/
theorem call_limit_inert_endless :
    ({} : Limits).evaluation ≤ 2 * ({} : Limits).calls + 1 ∧
      (Asserted.hooks (Free {}) id {}).run ⟨{}, fun _ => 0⟩ 0 (.program endless)
          Machine.oneFrame.renewed =
        program ⟨{}, fun _ => 0⟩ 0 endless Machine.oneFrame.renewed ∧
      program ⟨⟨1000, 64, 256⟩, fun _ => 0⟩ 0 endless Machine.oneFrame.renewed =
        program ⟨{}, fun _ => 0⟩ 0 endless Machine.oneFrame.renewed := by
  have tight : ({} : Limits).evaluation ≤ 2 * ({} : Limits).calls + 1 := by decide
  obtain ⟨-, inert⟩ := call_limit_inert ⟨{}, fun _ => 0⟩ 0 (.program endless) .oneFrame
  obtain ⟨unlimited, raised⟩ := inert tight
  exact ⟨tight, unlimited, raised 1000 (by decide)⟩

/-- With one level more the limit on calls is reached. -/
example : ((program ⟨⟨1, 0, 3⟩, fun _ => 0⟩ 0 endless).outcome .oneFrame).1 matches
      .error (.stackOverflow 3) ∧
    ((program ⟨⟨1, 0, 4⟩, fun _ => 0⟩ 0 endless).outcome .oneFrame).1 matches
      .error (.stackOverflow 1) := by
  decide +kernel

end Guion