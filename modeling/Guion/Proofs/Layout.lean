import Guion.Proofs.Evaluation.Relocation
import Guion.Proofs.Parser.Isolation
import Guion.Proofs.Session

/-!
# Layout carries no meaning

Blanks, newlines and comments tell where the tokens of a text stand, and nothing else.  Parsing and
evaluation pass places on without looking at them: tokens at other places are read as the same
program at other places (`Scanned.parse_move`), and a session at other places runs it to the same
outcome at other places (`Session.evalParsed_move`).  Two texts with the same tokens are the same
once all places are forgotten, and so is all that comes of them (`layout_carries_no_meaning`).
-/

set_option autoImplicit false

namespace Guion

open Movable

/-! ## Texts and sessions at other places -/

instance : Movable RuntimeError := ⟨fun _ => id⟩

instance {ε α : Type} [Movable ε] [Movable α] : Movable (Except ε α) where
  move g
    | .ok a => .ok (move g a)
    | .error e => .error (move g e)

/-- What a text was read as, at another place. -/
def Parsed.move (g : Position → Position) (parsed : Parsed) : Parsed :=
  ⟨parsed.program.move g, parsed.errors.map (SyntaxError.move g)⟩

instance : Movable Parsed := ⟨Parsed.move⟩

/-- The error at another place; what goes wrong at run time has none. -/
def ScriptError.move (g : Position → Position) : ScriptError → ScriptError
  | .malformed errors => .malformed (errors.map (SyntaxError.move g))
  | .runtime cause => .runtime cause

instance : Movable ScriptError := ⟨ScriptError.move⟩

/-- The session with the bodies of all its functions at another place. -/
def Session.move (g : Position → Position) (session : Session) : Session :=
  { session with machine := session.machine.move g }

instance : Movable Session := ⟨Session.move⟩

/-- All places forgotten. -/
def Movable.unplaced {α : Type} [Movable α] : α → α := move fun _ => default

/-! ## Parsing -/

/-- Tokens at other places are read as the same program at other places. -/
theorem Scanned.parse_move (g : Position → Position) (limit : Nat) {s : Scanned}
    (ended : s.finish.kind = .endOfInput) : (s.move g).parse limit = (s.parse limit).move g := by
  obtain ⟨found, t, own⟩ := Parser.program_eq_ok limit (s := .ofScanned s) ended
  have moved : Parser.program limit (.ofScanned (s.move g)) =
      .ok (found.move g) ((Parser.Transport.moving g #[]).state t) := by
    have count : (Parser.State.ofScanned (s.move g)).tokens.length = s.tokens.length :=
      List.length_map _
    rw [← Parser.Boundary.collect_of_program g #[] (Nat.le_of_eq (congrArg (· + 1) count.symm))
      (Nat.le_of_eq (congrArg (· + 2) count.symm)) own, Parser.Transport.state_ofScanned]
    rfl
  rw [Scanned.parse, Scanned.parse, EStateM.run, EStateM.run, own, moved]
  simp [Parsed.move, Parser.Transport.state_moving]

/-! ## Running -/

/-- The outcome of a run at other places. -/
theorem Run.Moves.outcome {α : Type} [Movable α] {g : Position → Position} {p p' : Run α}
    (h : Run.Moves g p p') (s : Machine) : p'.outcome (s.move g) = move g (p.outcome s) := by
  rw [Run.outcome, Run.outcome, h s]
  cases p s with
  | ok a t => rfl
  | error stop t => cases stop <;> rfl

namespace Session

theorem run_move (g : Position → Position) (session : Session) (p : Program) :
    (session.move g).run (p.move g) = Movable.move g (session.run p) := by
  have moved := (Run.moves_program (g := g) session.setting session.globals p).outcome
    session.machine
  exact congrArg (fun ended => (ended.1, ({ session with machine := ended.2 } : Session))) moved

/-- Runs what a text was read as, unless it has syntax errors. -/
def evalParsed (session : Session) (parsed : Parsed) : Except ScriptError Value × Session :=
  match parsed.errors with
  | [] => ((session.run parsed.program).1.mapError .runtime, (session.run parsed.program).2)
  | errors => (.error (.malformed errors), session)

theorem eval_eq (session : Session) (source : String) :
    session.eval source = session.evalParsed (parse session.setting.limits.nesting source) := rfl

/-- At other places, all comes to the same at other places. -/
theorem evalParsed_move (g : Position → Position) (session : Session) (parsed : Parsed) :
    (session.move g).evalParsed (parsed.move g) = Movable.move g (session.evalParsed parsed) := by
  obtain ⟨program, errors⟩ := parsed
  cases errors with
  | nil =>
    have ended := run_move g session program
    have outcome : Except.mapError ScriptError.runtime (Movable.move g (session.run program).1) =
        Movable.move g ((session.run program).1.mapError ScriptError.runtime) := by
      cases (session.run program).1 <;> rfl
    show (((session.move g).run (program.move g)).1.mapError ScriptError.runtime,
      ((session.move g).run (program.move g)).2) = _
    rw [ended]
    exact congrArg (·, (session.run program).2.move g) outcome
  | cons e errors => rfl

end Session

/-! ## Layout -/

/-- Tokens that agree in kind and text are the same without their places. -/
theorem unplaced_scan {first second : String}
    (same : (tokenize first).map (fun t => (t.kind, t.text)) =
      (tokenize second).map (fun t => (t.kind, t.text))) :
    (scan first).move (fun _ => default) = (scan second).move (fun _ => default) := by
  have alike : (tokenize first).map (Token.move fun _ => default) =
      (tokenize second).map (Token.move fun _ => default) := by
    have rebuilt := congrArg (List.map fun word => Token.mk word.1 word.2 default) same
    rwa [List.map_map, List.map_map] at rebuilt
  rw [tokenize, tokenize, List.map_append, List.map_append] at alike
  obtain ⟨tokens, finish⟩ := List.append_inj' alike rfl
  exact congrArg₂ Scanned.mk tokens (List.singleton_inj.1 finish)

/-- **Layout carries no meaning.**  Two texts whose tokens agree in kind and text are read as the
same program with the same errors, and from any session they lead to the same outcome, the same
output and the same session, up to places. -/
theorem layout_carries_no_meaning {first second : String}
    (same : (tokenize first).map (fun t => (t.kind, t.text)) =
      (tokenize second).map (fun t => (t.kind, t.text))) :
    (∀ limit, unplaced (parse limit first) = unplaced (parse limit second)) ∧
      ∀ session : Session, unplaced (session.eval first) = unplaced (session.eval second) ∧
        (session.eval first).2.output = (session.eval second).2.output := by
  have read (limit : Nat) : unplaced (parse limit first) = unplaced (parse limit second) := by
    show (Scanned.parse limit (scan first)).move _ = (Scanned.parse limit (scan second)).move _
    rw [← Scanned.parse_move _ limit (kind_finish_scan first),
      ← Scanned.parse_move _ limit (kind_finish_scan second), unplaced_scan same]
  refine ⟨read, fun session => ?_⟩
  have outcome : unplaced (session.eval first) = unplaced (session.eval second) := by
    rw [Session.eval_eq, Session.eval_eq, unplaced, ← Session.evalParsed_move,
      ← Session.evalParsed_move]
    exact congrArg (Session.evalParsed _) (read _)
  exact ⟨outcome, congrArg (fun result => result.2.output) outcome⟩

/-- A function, and a call of it, on one line and on several with a comment. -/
theorem layout_carries_no_meaning_commented :
    (tokenize "func f(x) \x7b x + 1; \x7d f(2)").map (fun t => (t.kind, t.text)) =
      (tokenize "func f ( x ) // successor\n\x7b\n  x+1 ;\n\x7d\nf(2)").map
        (fun t => (t.kind, t.text)) ∧
    tokenize "func f(x) \x7b x + 1; \x7d f(2)" ≠
      tokenize "func f ( x ) // successor\n\x7b\n  x+1 ;\n\x7d\nf(2)" ∧
    ∀ session : Session, unplaced (session.eval "func f(x) \x7b x + 1; \x7d f(2)") =
      unplaced (session.eval "func f ( x ) // successor\n\x7b\n  x+1 ;\n\x7d\nf(2)") := by
  have same : (tokenize "func f(x) \x7b x + 1; \x7d f(2)").map (fun t => (t.kind, t.text)) =
      (tokenize "func f ( x ) // successor\n\x7b\n  x+1 ;\n\x7d\nf(2)").map
        (fun t => (t.kind, t.text)) := by decide +kernel
  exact ⟨same, by decide +kernel, fun session => ((layout_carries_no_meaning same).2 session).1⟩

end Guion
