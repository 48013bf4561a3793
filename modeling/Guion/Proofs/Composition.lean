import Guion.Proofs.Layout
import Guion.Proofs.Parser.Acceptance
import Guion.Proofs.Parser.Separation

/-!
# Sessions are compositional

A text that ends with a semicolon, with another one on the lines after it, comes to the same as the
two texts one after the other (`session_compositional`).  The two are read as the statements of the
first and then those of the second (`parse_continued`).  Statements that run without a signal leave
the rest to start from the machine that they end with, as it does in a session
(`Session.evalParsed_append`).  What is left to tell the two apart is where the tokens of the second
text stand: they are marked, and the outcome of the marked text is that of either at other places
(`Session.evalParsed_moved`).
-/

set_option autoImplicit false

namespace Guion

open Movable Bounded

/-! ## Statements and more statements -/

namespace Run

variable (eval : Evaluator) (frame : FrameId)

/-- Whether a statement yields a signal before one fails. -/
def signals : List Statement → Machine → Bool
  | [], _ => false
  | s :: rest, machine =>
    match statement eval frame s machine with
    | .ok (.returned _) _ => true
    | .ok _ machine => signals rest machine
    | .error _ _ => false

variable {eval frame}

/-- Statements that run without a signal leave the rest to start where they end. -/
theorem statements_append {first : List Statement} (rest : List Statement) {v : Value}
    {t : Machine} : ∀ {last : Value} {s : Machine}, signals eval frame first s = false →
      statements eval frame last first s = .ok v t →
      statements eval frame last (first ++ rest) s = statements eval frame v rest t := by
  induction first with
  | nil =>
    intro last s _ run
    cases run
    rfl
  | cons head tail ih =>
    intro last s quiet run
    obtain ⟨w, u, here, others⟩ := bind_eq_ok_iff.1 run
    rw [signals, here] at quiet
    rw [List.cons_append, statements, bind_of_ok here]
    cases w with
    | returned => cases quiet
    | _ => exact ih quiet others

/-- A program that runs without a signal leaves the rest to start where it ends. -/
theorem program_append {setting : Setting} {first rest : Program} {v : Value} {s t : Machine}
    (nonempty : rest ≠ []) (quiet : signals (evaluate setting) frame first s = false)
    (run : program setting frame first s = .ok v t) :
    program setting frame (first ++ rest) s = program setting frame rest t := by
  obtain ⟨w, u, before, last⟩ := bind_eq_ok_iff.1 run
  cases last
  rw [program, program]
  -- with a statement in the rest, the value of the first part is forgotten
  obtain ⟨head, tail, rfl⟩ := List.exists_cons_of_ne_nil nonempty
  show EStateM.bind _ _ s = EStateM.bind _ _ t
  rw [EStateM.bind, EStateM.bind, statements_append _ quiet before]
  rfl

theorem eq_ok_of_outcome {α : Type} {p : Run α} {s : Machine} {a : α}
    (h : (p.outcome s).1 = .ok a) : p s = .ok a (p.outcome s).2 := by
  rw [outcome] at h ⊢
  cases run : p s with
  | ok b t =>
    rw [run] at h
    cases h
    rfl
  | error stop t =>
    rw [run] at h
    cases stop <;> cases h

end Run

namespace Session

/-- Whether a statement of the program yields a signal at top level. -/
def signals (session : Session) (p : Program) : Bool :=
  Run.signals (Run.evaluate session.setting) session.globals p session.machine

theorem setting_evalParsed (session : Session) (parsed : Parsed) :
    (session.evalParsed parsed).2.setting = session.setting := by
  rw [evalParsed]
  split <;> rfl

/-- What runs to a value without a signal leaves the rest to the session after it. -/
theorem evalParsed_append {session after : Session} {first rest : Program} {v : Value}
    (nonempty : rest ≠ []) (quiet : session.signals first = false)
    (succeeds : session.evalParsed ⟨first, []⟩ = (.ok v, after)) :
    session.evalParsed ⟨first ++ rest, []⟩ = after.evalParsed ⟨rest, []⟩ := by
  obtain ⟨value, rfl⟩ := Prod.mk.inj succeeds
  have run : (session.run first).1 = .ok v := by
    cases ended : (session.run first).1 with
    | ok w =>
      rw [ended] at value
      cases value
      rfl
    | error cause =>
      rw [ended] at value
      cases value
  have both := Run.program_append nonempty quiet (Run.eq_ok_of_outcome run)
  have same : session.run (first ++ rest) = (session.run first).2.run rest := by
    rw [Session.run, Run.outcome, both]
    rfl
  show ((session.run _).1.mapError ScriptError.runtime, (session.run _).2) = _
  rw [same]
  rfl

end Session

/-! ## Marked places -/

namespace Position

/-- The place with a mark or without one, which the offset tells. -/
def mark (marked : Bool) (p : Position) : Position :=
  { p with offset := 2 * p.offset + marked.toNat }

/-- The place that was given a mark or none; `g` moves those that were marked. -/
def unmark (g : Position → Position) (p : Position) : Position :=
  let plain := { p with offset := p.offset / 2 }
  if p.offset % 2 = 0 then plain else g plain

theorem unmark_mark_false (g : Position → Position) : unmark g ∘ mark false = id := by
  funext p
  simp [unmark, mark]

theorem unmark_mark_true (g : Position → Position) : unmark g ∘ mark true = g := by
  funext p
  have half : (2 * p.offset + 1) / 2 = p.offset := by omega
  simp [unmark, mark, half]

end Position

namespace Parsed

theorem move_id (parsed : Parsed) : parsed.move id = parsed := by
  have errors : parsed.errors.map (SyntaxError.move id) = parsed.errors := List.map_id _
  rw [Parsed.move, Program.move_id, errors]

theorem move_move (g h : Position → Position) (parsed : Parsed) :
    (parsed.move g).move h = parsed.move (h ∘ g) := by
  simp only [Parsed.move, Program.move_move, List.map_map]
  rfl

end Parsed

namespace Session

theorem move_id (session : Session) : session.move id = session := by
  rw [Session.move, Machine.move_id]

theorem move_move (g h : Position → Position) (session : Session) :
    (session.move g).move h = session.move (h ∘ g) := by
  simp only [Session.move, Machine.move_move]

/-- What was written has no place. -/
theorem output_move (g : Position → Position) (outcome : Except ScriptError Value × Session) :
    (Movable.move g outcome).2.output = outcome.2.output := rfl

/-- The outcome of what a text was read as, in which the places of its tokens are marked and all
others are not. -/
def evalMarked (session : Session) (parsed : Parsed) : Except ScriptError Value × Session :=
  (session.move (.mark false)).evalParsed (parsed.move (.mark true))

/-- With the text at another place, the outcome is the same but for the marked places, which are
moved there. -/
theorem evalParsed_moved (g : Position → Position) (session : Session) (parsed : Parsed) :
    session.evalParsed (parsed.move g) =
      Movable.move (Position.unmark g) (session.evalMarked parsed) := by
  rw [evalMarked, ← evalParsed_move, move_move, Parsed.move_move, Position.unmark_mark_false,
    Position.unmark_mark_true, move_id]

end Session

/-! ## Texts -/

/-- **Sessions are compositional.**  Take a text that ends with a semicolon, is read without errors
and runs to a value without a signal at top level, and another one that is read without errors and
has a statement.  Then the second text evaluated after the first, and the two evaluated as one, come
to one outcome, with the same value or error, the same output and the same heap.  Only the places of
the tokens of the second text, which are marked in that outcome, are in one case their own and in
the other those after the line on which the first one ends. -/
theorem session_compositional {session after : Session} {first second : String} {p q : Program}
    {v : Value} (closed : (words first).getLast?.map Token.kind = some .semicolon)
    (readFirst : parse session.setting.limits.nesting first = ⟨p, []⟩)
    (readSecond : parse session.setting.limits.nesting second = ⟨q, []⟩) (nonempty : q ≠ [])
    (succeeds : session.eval first = (.ok v, after)) (quiet : session.signals p = false) :
    after.eval second = move (Position.unmark id) (after.evalMarked ⟨q, []⟩) ∧
      session.eval (first ++ "\n" ++ second) =
        move (Position.unmark (Position.afterLine first).shift) (after.evalMarked ⟨q, []⟩) ∧
      (session.eval (first ++ "\n" ++ second)).2.output = (after.eval second).2.output := by
  -- the last token of the first text
  obtain ⟨semicolon, last, kind⟩ := Option.map_eq_some_iff.1 closed
  obtain ⟨front, tokens⟩ := List.getLast?_eq_some_iff.1 last
  rw [words_eq] at tokens
  have joined := parse_continued session.setting.limits.nesting tokens kind (by rw [readFirst])
    second
  rw [readFirst, readSecond] at joined
  rw [Session.eval_eq, readFirst] at succeeds
  have setting : after.setting = session.setting := by
    rw [← session.setting_evalParsed ⟨p, []⟩, succeeds]
  have apart : after.eval second = after.evalParsed ⟨q, []⟩ := by
    rw [Session.eval_eq, setting, readSecond]
  have whole : session.eval (first ++ "\n" ++ second) =
      after.evalParsed (Parsed.move (Position.afterLine first).shift ⟨q, []⟩) := by
    have moved : q.move (Position.afterLine first).shift ≠ [] := by
      obtain ⟨head, tail, rfl⟩ := List.exists_cons_of_ne_nil nonempty
      exact List.cons_ne_nil _ _
    rw [Session.eval_eq, joined]
    exact Session.evalParsed_append moved quiet succeeds
  rw [Session.evalParsed_moved] at whole
  rw [← Parsed.move_id ⟨q, []⟩, Session.evalParsed_moved] at apart
  refine ⟨apart, whole, ?_⟩
  rw [whole, apart, Session.output_move, Session.output_move]

/-- A variable is declared, with a comment after the semicolon, and a function that reads it is
declared and called. -/
theorem session_compositional_commented :
    let first := "var x = verdadero; // set"
    let second := "func f() \x7b x \x7d f()"
    let session := Session.start ⟨{}, fun _ => 0⟩ none
    let after := (session.eval first).2
    let parsed := parse session.setting.limits.nesting second
    (session.eval first).1.isOk = true ∧ parsed.program.length = 2 ∧
      after.eval second = move (Position.unmark id) (after.evalMarked parsed) ∧
      session.eval (first ++ "\n" ++ second) =
        move (Position.unmark (Position.afterLine first).shift) (after.evalMarked parsed) ∧
      (session.eval (first ++ "\n" ++ second)).2.output = (after.eval second).2.output := by
  intro first second session after parsed
  have succeeds : (session.eval first).1.isOk = true := by decide +kernel
  have count : parsed.program.length = 2 := by decide +kernel
  obtain ⟨v, ended⟩ : ∃ v, (session.eval first).1 = .ok v := by
    cases value : (session.eval first).1 with
    | ok v => exact ⟨v, rfl⟩
    | error e =>
      rw [value] at succeeds
      cases succeeds
  have readFirst : (parse session.setting.limits.nesting first).errors = [] := by decide +kernel
  have readSecond : parsed.errors = [] := by decide +kernel
  have quiet : session.signals (parse session.setting.limits.nesting first).program = false := by
    decide +kernel
  have nonempty : parsed.program ≠ [] := List.ne_nil_of_length_pos (by rw [count]; decide)
  refine ⟨succeeds, count, ?_⟩
  have composed := session_compositional (by decide +kernel) (congrArg (Parsed.mk _) readFirst)
    (congrArg (Parsed.mk _) readSecond) nonempty (Prod.ext ended rfl) quiet
  rw [← readSecond] at composed
  exact composed

end Guion
