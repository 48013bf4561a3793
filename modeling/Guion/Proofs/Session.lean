import Guion.Proofs.Bounded
import Guion.Session

/-!
# How sessions go on

A session after any number of source texts, whatever became of each: its setting and its global
frame are the same, and its machine is related to the one it started with by everything that running
a program keeps (`Session.along_after`).
-/

set_option autoImplicit false

namespace Guion

open Bounded

theorem Run.outcome_snd {α : Type} (p : Run α) (s : Machine) : (p.outcome s).2 = final (p s) := by
  rw [outcome]
  cases p s with
  | ok a t => rfl
  | error stop t => cases stop <;> rfl

namespace Session

/-- What holds of the predefined names and their values holds of all that a new session binds. -/
theorem forall_binding?_start {P : String → Value → Prop}
    (verdadero : P "verdadero" (.boolean true))
    (falso : P "falso" (.boolean false)) (nulo : P "nulo" .null)
    (imprimir : P "imprimir" (.native .imprimir)) (tiempo : P "tiempo" (.native .tiempo))
    (setting : Setting) (capacity : Option Nat) (i : FrameId) (name : String) (binding : Binding)
    (found : (start setting capacity).machine.heap.binding? i name = some binding) :
    P name binding.value := by
  have here : i < 1 := Heap.lt_size_of_binding? found
  obtain rfl : i = 0 := Nat.lt_one_iff.1 here
  have listed := Table.mem_of_mem_ofList (Table.mem_of_find? (Heap.binding?_eq_some.1 found).1)
  simp only [List.mem_cons, Prod.mk.injEq, List.not_mem_nil, or_false] at listed
  rcases listed with ⟨rfl, same⟩ | ⟨rfl, same⟩ | ⟨rfl, same⟩ | ⟨rfl, same⟩ | ⟨rfl, same⟩ <;>
    rw [same]
  · exact verdadero
  · exact falso
  · exact nulo
  · exact imprimir
  · exact tiempo

/-- A text without syntax errors runs as the program it is read as. -/
theorem machine_eval (session : Session) (source : String)
    (clean : (parse session.setting.limits.nesting source).errors = []) :
    (session.eval source).2.machine =
      final (Run.program session.setting session.globals
        (parse session.setting.limits.nesting source).program session.machine) := by
  rw [eval, clean, ← Run.outcome_snd]
  rfl

/-- The session after `sources` were evaluated in turn, whatever became of each. -/
def after (session : Session) : List String → Session
  | [] => session
  | source :: rest => (session.eval source).2.after rest

/-- The session went on, along `R`, with the same setting and the same global frame. -/
structure Along (R : Machine → Machine → Prop) (session session' : Session) : Prop where
  setting : session'.setting = session.setting
  globals : session'.globals = session.globals
  machine : R session.machine session'.machine

variable {R : Machine → Machine → Prop} [order : IsPreorder Machine R]
  (keeps : ∀ setting frame p, Keeps R (Run.program setting frame p))

include keeps

theorem along_eval (session : Session) (source : String) :
    Along R session (session.eval source).2 := by
  rw [eval]
  cases (parse session.setting.limits.nesting source).errors with
  | nil =>
    refine ⟨rfl, rfl, ?_⟩
    show R session.machine ((Run.program _ _ _).outcome _).2
    rw [Run.outcome_snd]
    exact (keeps _ _ _).final_rel _
  -- a text with syntax errors does not run
  | cons error errors => exact ⟨rfl, rfl, order.refl _⟩

theorem along_after (session : Session) (sources : List String) :
    Along R session (session.after sources) := by
  induction sources generalizing session with
  | nil => exact ⟨rfl, rfl, order.refl _⟩
  | cons source rest ih =>
    have first := along_eval keeps session source
    have later := ih (session.eval source).2
    exact ⟨later.setting.trans first.setting, later.globals.trans first.globals,
      order.trans _ _ _ first.machine later.machine⟩

end Session

end Guion
