import Guion.Proofs.Parser.Progress

/-!
# The nesting depth is restored

However a production ends, it leaves the nesting depth as it found it (`Steady`).  The loop over
operators alone raises it, one level for each operator, and the expression that runs the loop goes
back to where it started.
-/

set_option autoImplicit false

namespace Guion.Parser

open Bounded

variable {α : Type}

/-- The depth is the same. -/
def State.SameDepth (s t : State) : Prop := t.depth = s.depth

instance : IsPreorder State State.SameDepth where
  refl _ := rfl
  trans _ _ _ first rest := Eq.trans rest first

/-- Every run of the parser leaves the depth as it was. -/
abbrev Steady (p : Parser α) : Prop := Keeps State.SameDepth p

/-! ## Steps -/

instance : Steady current := ⟨fun _ => rfl⟩

instance : Steady peek := ⟨fun _ => rfl⟩

instance : Steady advance := ⟨fun _ => rfl⟩

instance (pos : Position) (fault : SyntaxError.Fault) : Steady (failAt pos fault : Parser α) :=
  keeps_fail _

instance (fault : SyntaxError.Fault) : Steady (failHere fault : Parser α) := keeps_bind

instance (kind : Token.Kind) : Steady (expect kind) := keeps_bind

instance : Steady expectIdentifier := keeps_bind

instance : Steady skipSemicolon := keeps_bind

/-- Entering a level succeeds with the depth raised, or changes nothing. -/
theorem enter_cases (limit : Nat) (s : State) :
    s.depth < limit ∧ enter limit s = .ok () { s with depth := s.depth + 1 } ∨
      limit ≤ s.depth ∧
        enter limit s = .error (.error ⟨s.current.pos, .nestingTooDeep limit⟩) s := by
  by_cases room : s.depth < limit
  · exact .inl ⟨room, enter_of_lt room⟩
  · refine .inr ⟨Nat.not_lt.1 room, ?_⟩
    show (if limit ≤ s.depth then failAt _ _ else set _ : Parser Unit) s = _
    rw [if_pos (Nat.not_lt.1 room)]
    rfl

theorem final_ensuring (after : State → State) (p : Parser α) (s : State) :
    final (ensuring after p s) = after (final (p s)) := by
  rw [ensuring]
  cases p s <;> rfl

/-- A level that was entered is left again. -/
instance (limit : Nat) (p : Parser α) [steady : Steady p] : Steady (nested limit p) := by
  constructor
  intro s
  rcases enter_cases limit s with ⟨-, entered⟩ | ⟨-, refused⟩
  · rw [nested, bind_of_ok entered, final_ensuring]
    have inside := steady.final_rel { s with depth := s.depth + 1 }
    exact congrArg (· - 1) inside
  · rw [nested, bind_of_error refused]
    rfl

instance (p : Parser α) : Steady (keepingDepth p) := by
  constructor
  intro s
  show State.SameDepth s (final (ensuring _ p s))
  rw [final_ensuring]
  rfl

instance (p : Parser (Option α)) [steady : Steady p] : Steady (recovering p) := by
  constructor
  intro s
  have kept := steady.final_rel s
  rw [recovering]
  cases run : p s with
  | ok a t =>
    rw [run] at kept
    exact kept
  | error stop t =>
    rw [run] at kept
    -- skipping the rest of a statement does not touch the depth
    cases stop <;> exact kept

/-! ## Productions -/

/-- The productions one level further in leave the depth as it was. -/
class Productions.Steady (inner : Productions) : Prop where
  expression : ∀ power, Parser.Steady (inner.expression power)
  block : Parser.Steady inner.block
  conditional : ∀ token, Parser.Steady (inner.conditional token)

section Productions

variable (limit bound : Nat) (inner : Productions) [steady : inner.Steady]

instance (power : BindingPower) : Steady (inner.expression power) := steady.expression power

instance : Steady inner.block := steady.block

instance (token : Token) : Steady (inner.conditional token) := steady.conditional token

omit steady in
instance (item : Parser α) [Steady item] : Steady (commaItem item) := keeps_bind

omit steady in
instance (item : Parser α) [Steady item] : Steady (commaSeparated bound item) := keeps_collect bound

omit steady in
instance : Steady (parameters bound) := keeps_bind

instance : Steady (functionRest bound inner) := keeps_bind

instance (power : BindingPower) : Steady (nextExpression inner power) := keeps_bind

instance (token : Token) (op : UnaryOp) : Steady (unary inner token op) := keeps_bind

instance : Steady (grouped inner) := keeps_bind

instance : Steady (alternative limit inner) :=
  Keeps.then inferInstance fun next => by split <;> infer_instance

set_option synthInstance.maxSize 400 in
instance (token : Token) : Steady (conditional limit inner token) := keeps_bind

instance : Steady (property inner) := keeps_bind

instance : Steady (commaProperty inner) := keeps_bind

instance : Steady (moreProperties bound inner) := keeps_collect bound

instance : Steady (properties bound inner) := keeps_bind

instance (token : Token) : Steady (object bound inner token) := keeps_bind

instance : Steady (operand limit bound inner) :=
  Keeps.then inferInstance fun token => by
    split
    all_goals try split
    all_goals infer_instance

instance : Steady (arguments bound inner) := keeps_bind

instance (token : Token) (left : Expression) : Steady (assignment inner token left) := by
  unfold assignment
  split <;> infer_instance

instance (left : Expression) : Steady (extend bound inner left) :=
  Keeps.then inferInstance fun token => by
    split
    · infer_instance
    · split <;> infer_instance

instance (power : BindingPower) : Steady (expression limit bound inner power) := by
  rw [expression]
  infer_instance

instance : Steady (declaration inner) := keeps_bind

instance : Steady (resultValue inner) :=
  Keeps.then inferInstance fun next => by split <;> infer_instance

instance : Steady (result inner) := keeps_bind

instance : Steady (function bound inner) := keeps_bind

instance : Steady (statement bound inner) :=
  Keeps.then inferInstance fun token => by split <;> infer_instance

instance : Steady (item bound inner) := keeps_bind

instance (token : Token) : Steady (blockItem bound inner token) :=
  Keeps.then inferInstance fun _ => by split <;> infer_instance

instance : Steady (block bound inner) := keeps_bind

instance : Steady (programItem bound inner) :=
  Keeps.then inferInstance fun _ => by split <;> infer_instance

instance : (inner.next limit bound).Steady where
  expression _ := inferInstanceAs (Steady (expression limit bound inner _))
  block := inferInstanceAs (Steady (block bound inner))
  conditional _ := inferInstanceAs (Steady (conditional limit inner _))

end Productions

instance (limit n : Nat) : (Productions.upTo limit n).Steady := by
  induction n with
  | zero => exact ⟨fun _ => keeps_exhausted, keeps_exhausted, fun _ => keeps_exhausted⟩
  | succ n ih => exact inferInstanceAs ((Productions.upTo limit n).next limit (n + 1)).Steady

end Guion.Parser
