import Guion.Proofs.Parser.Recursion

/-!
# Larger limits on nesting

The limit on nesting is looked at in one place only, where a level is entered.  A text that is read
without reaching it is read the same way under every larger limit (`larger_nesting_inert`), however
many errors of other kinds it has: the two runs go through the same states, skip the same statements
and record the same errors.

The run under the larger limit is one more transport, which changes neither places nor errors and
excuses what happens after the smaller limit was reached.  That an error is recorded for good makes
the excuse visible at the end: an error inside a statement is recorded when the statement is
skipped, and an error on the way is never taken back.
-/

set_option autoImplicit false

namespace Guion

/-- The error is that expressions are nested too deeply. -/
def SyntaxError.tooDeep (e : SyntaxError) : Bool :=
  match e.fault with
  | .nestingTooDeep _ => true
  | _ => false

theorem SyntaxError.tooDeep_eq_false {e : SyntaxError} (h : ∀ n, e.fault ≠ .nestingTooDeep n) :
    e.tooDeep = false := by
  rw [tooDeep]
  split
  · exact absurd ‹_› (h _)
  · rfl

namespace Parser

open Bounded

/-- From a run to the one under a larger limit on nesting. -/
def Transport.raising : Transport := ⟨id, #[], fun e => e.tooDeep = true, none⟩

theorem Transport.larger_raising {limit limit' : Nat} (le : limit ≤ limit') :
    raising.Larger limit limit' :=
  .inr ⟨le, fun _ => rfl⟩

theorem Transport.state_raising (s : State) : raising.state s = s := state_staying s

/-- Neither the state nor what is yielded is another one under the larger limit. -/
theorem Transport.outcome_raising {α : Type} [Movable α] [LawfulMovable α]
    (r : EStateM.Result (Stop SyntaxError) State α) : raising.outcome r = r := by
  have same : raising.outcome r = staying.outcome r := by
    rcases r with ⟨a, t⟩ | ⟨_ | _, t⟩ <;> rfl
  rw [same, outcome_staying]

/-- A program that is read without reaching the limit is read the same way under a larger one. -/
theorem program_of_larger {limit limit' : Nat} (le : limit ≤ limit') {s t : State} {p : Program}
    (run : program limit s = .ok p t) (clear : ∀ e ∈ t.errors.toList, e.tooDeep = false) :
    program limit' s = .ok p t := by
  have deeper := Transport.inner_upTo (Transport.larger_raising le)
    (Nat.le_refl (s.tokens.length + 1))
  have carries := (Transport.carries_programItem deeper
    (Nat.le_refl (s.tokens.length + 2))).collect (Nat.le_refl (s.tokens.length + 2))
  have own : collect (programItem (s.tokens.length + 2) (Productions.upTo limit
    (s.tokens.length + 1))) (s.tokens.length + 2) s = .ok p t := run
  have unexcused : ¬ Transport.raising.Excused (.ok p t) := by
    rintro (⟨e, recorded, deep⟩ | ⟨sequel, -⟩)
    · exact Bool.false_ne_true ((clear e recorded).symm.trans deep)
    · exact sequel rfl
  have raised := carries s (by rwa [own])
  rwa [own, Transport.outcome_raising, Transport.state_raising] at raised

end Parser

/-- **Larger limits are inert.**  A text that is read under a limit on nesting without an error
about nesting is read as the same program with the same errors under every larger limit. -/
theorem larger_nesting_inert {limit limit' : Nat} (le : limit ≤ limit') (source : String)
    (clear : ∀ e ∈ (parse limit source).errors, ∀ n, e.fault ≠ .nestingTooDeep n) :
    parse limit' source = parse limit source := by
  obtain ⟨p, t, run⟩ := Parser.program_eq_ok limit (Parser.State.sane_ofScanned source).finish
  have read : parse limit source = ⟨p, t.errors.toList⟩ := by
    rw [parse, Scanned.parse, EStateM.run, run]
  rw [read] at clear ⊢
  have raised := Parser.program_of_larger le run fun e recorded =>
    SyntaxError.tooDeep_eq_false (clear e recorded)
  rw [parse, Scanned.parse, EStateM.run, raised]

/-- A constant without a value, a parenthesis too many inside a block and one outside, and operators
up to the limit. -/
theorem larger_nesting_inert_malformed :
    let source := "let x; si (a) \x7b b) c; d \x7d 1 + 2 * 3 )"
    (parse 5 source).errors.map SyntaxError.fault =
        [.missingInitializer "x", .noOperand ")", .noOperand ")"] ∧
      parse 64 source = parse 5 source := by
  intro source
  have faults : (parse 5 source).errors.map SyntaxError.fault =
      [.missingInitializer "x", .noOperand ")", .noOperand ")"] := by decide +kernel
  refine ⟨faults, larger_nesting_inert (by decide) source fun e recorded n deep => ?_⟩
  have member := List.mem_map_of_mem (f := SyntaxError.fault) recorded
  rw [faults, deep] at member
  simp at member

end Guion
