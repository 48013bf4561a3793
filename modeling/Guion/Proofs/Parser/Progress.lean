import Guion.Proofs.Parser.Steps
import Guion.Proofs.Token.Lexed
import Mathlib.Data.List.Infix
import Mathlib.Tactic.SplitIfs

/-!
# Parsers only move on

However a parser ends, it ends ahead of where it started: it used tokens up and recorded errors,
and did nothing else to either (`Onward`).
-/

set_option autoImplicit false

namespace Guion.Parser

open Bounded

variable {α : Type}

/-- `t` lies ahead of `s`: some tokens were used up and some errors were recorded. -/
structure State.Ahead (s t : State) : Prop where
  tokens : t.tokens <:+ s.tokens
  finish : t.finish = s.finish
  errors : s.errors.toList <+: t.errors.toList

instance : IsPreorder State State.Ahead where
  refl _ := ⟨List.suffix_refl _, rfl, List.prefix_refl _⟩
  trans _ _ _ first rest :=
    ⟨rest.tokens.trans first.tokens, rest.finish.trans first.finish,
      first.errors.trans rest.errors⟩

theorem State.Ahead.length_tokens_le {s t : State} (h : s.Ahead t) :
    t.tokens.length ≤ s.tokens.length :=
  h.tokens.length_le

theorem State.Ahead.length_ahead_le {s t : State} (h : s.Ahead t) :
    t.ahead.length ≤ s.ahead.length := by
  have shorter := h.length_tokens_le
  simp only [State.ahead, List.length_tail]
  omega

/-- A state as scanning leaves it: the end of input comes last, and the tokens before it have the
texts that their kinds ask for. -/
structure State.Sane (s : State) : Prop where
  finish : s.finish.kind = .endOfInput
  lexed : ∀ t ∈ s.tokens, t.Lexed

theorem State.sane_ofScanned (source : String) : (State.ofScanned (scan source)).Sane :=
  ⟨kind_finish_scan source, lexed_scan source⟩

theorem State.Sane.onward {s t : State} (h : s.Sane) (ahead : s.Ahead t) : t.Sane :=
  ⟨ahead.finish ▸ h.finish, fun u left => h.lexed u (ahead.tokens.subset left)⟩

/-- At the end of input no token is left. -/
theorem State.Sane.tokens_eq_nil {s : State} (h : s.Sane) (ended : s.current.kind = .endOfInput) :
    s.tokens = [] := by
  cases tokens : s.tokens with
  | nil => rfl
  | cons t rest =>
    rw [State.current_of_tokens tokens] at ended
    exact absurd ended (h.lexed t (tokens ▸ List.mem_cons_self)).not_end

/-- What holds of the tokens ahead and of the end of input holds of the next token. -/
theorem State.Sane.peek_kind {s : State} {P : Token.Kind → Prop} (h : s.Sane)
    (ended : P .endOfInput) (first : ∀ t ∈ s.ahead.head?, P t.kind) : P s.peek.kind := by
  cases ahead : s.ahead with
  | nil =>
    rw [State.peek_of_ahead_nil ahead, h.finish]
    exact ended
  | cons t rest =>
    rw [State.peek_of_ahead ahead]
    exact first t (by rw [ahead]; rfl)

/-- Every run of the parser ends ahead of where it started. -/
abbrev Onward (p : Parser α) : Prop := Keeps State.Ahead p

/-! ## Steps -/

theorem State.ahead_advance (s : State) : s.Ahead s.advance :=
  ⟨List.tail_suffix _, rfl, List.prefix_refl _⟩

instance : Onward current := ⟨fun s => refl s⟩

instance : Onward peek := ⟨fun s => refl s⟩

instance : Onward advance := ⟨State.ahead_advance⟩

instance (pos : Position) (fault : SyntaxError.Fault) : Onward (failAt pos fault : Parser α) :=
  keeps_fail _

instance (fault : SyntaxError.Fault) : Onward (failHere fault : Parser α) := keeps_bind

instance (kind : Token.Kind) : Onward (expect kind) := keeps_bind

instance : Onward expectIdentifier := keeps_bind

instance : Onward skipSemicolon := keeps_bind

instance (limit : Nat) : Onward (enter limit) := by
  constructor
  intro s
  show s.Ahead (final ((if limit ≤ s.depth then failAt _ _ else set _ : Parser Unit) s))
  split <;> exact ⟨List.suffix_refl _, rfl, List.prefix_refl _⟩

/-- The depth does not matter. -/
theorem State.ahead_of_depth (s : State) (depth : Nat) : s.Ahead { s with depth } :=
  ⟨List.suffix_refl _, rfl, List.prefix_refl _⟩

theorem onward_ensuring {p : Parser α} [Onward p] (after : State → State)
    (kept : ∀ t : State, t.Ahead (after t)) : Onward (ensuring after p) := by
  constructor
  intro s
  rw [ensuring]
  cases run : p s with
  | ok a t => exact IsTrans.trans _ _ _ (Keeps.ok run) (kept t)
  | error e t => exact IsTrans.trans _ _ _ (Keeps.error run) (kept t)

instance (limit : Nat) (p : Parser α) [Onward p] : Onward (nested limit p) :=
  have := onward_ensuring (p := p) State.leave fun t => t.ahead_of_depth _
  keeps_bind

instance (p : Parser α) [Onward p] : Onward (keepingDepth p) :=
  have (s : State) := onward_ensuring (p := p) (fun t => { t with depth := s.depth })
    fun t => t.ahead_of_depth _
  keeps_bind

/-- Parsing resumes at one of the tokens left. -/
theorem resume_suffix (tokens : List Token) : ∀ opened, resume opened tokens <:+ tokens := by
  induction tokens with
  | nil => exact fun _ => List.suffix_refl _
  | cons t rest ih =>
    intro opened
    simp only [resume]
    -- parsing resumes at this token, or further on
    split_ifs with here
    · exact List.suffix_refl _
    · exact (ih _).trans (List.suffix_cons t rest)

theorem State.ahead_recover (s : State) (e : SyntaxError) : s.Ahead (s.recover e) := by
  refine ⟨resume_suffix s.tokens 0, rfl, ?_⟩
  show s.errors.toList <+: (s.errors.push e).toList
  rw [Array.toList_push]
  exact List.prefix_append _ _

instance (p : Parser (Option α)) [Onward p] : Onward (recovering p) := by
  constructor
  intro s
  rw [recovering]
  cases run : p s with
  | ok a t => exact Keeps.ok run
  | error e t =>
    cases e with
    | error e => exact IsTrans.trans _ _ _ (Keeps.error run) (t.ahead_recover e)
    -- running out of the bound is not recovered from
    | exhausted => exact Keeps.error run

/-! ## Productions -/

/-- The productions one level further in only move on. -/
class Productions.Onward (inner : Productions) : Prop where
  expression : ∀ power, Parser.Onward (inner.expression power)
  block : Parser.Onward inner.block
  conditional : ∀ token, Parser.Onward (inner.conditional token)

section Productions

variable (limit bound : Nat) (inner : Productions) [onward : inner.Onward]

instance (power : BindingPower) : Onward (inner.expression power) := onward.expression power

instance : Onward inner.block := onward.block

instance (token : Token) : Onward (inner.conditional token) := onward.conditional token

omit onward in
instance (item : Parser α) [Onward item] : Onward (commaItem item) := keeps_bind

omit onward in
instance (item : Parser α) [Onward item] : Onward (commaSeparated bound item) := keeps_collect bound

omit onward in
instance : Onward (parameters bound) := keeps_bind

instance : Onward (functionRest bound inner) := keeps_bind

instance (power : BindingPower) : Onward (nextExpression inner power) := keeps_bind

instance (token : Token) (op : UnaryOp) : Onward (unary inner token op) := keeps_bind

instance : Onward (grouped inner) := keeps_bind

instance : Onward (alternative limit inner) :=
  Keeps.then inferInstance fun next => by split <;> infer_instance

set_option synthInstance.maxSize 400 in
instance (token : Token) : Onward (conditional limit inner token) := keeps_bind

instance : Onward (property inner) := keeps_bind

instance : Onward (commaProperty inner) := keeps_bind

instance : Onward (moreProperties bound inner) := keeps_collect bound

instance : Onward (properties bound inner) := keeps_bind

instance (token : Token) : Onward (object bound inner token) := keeps_bind

instance : Onward (operand limit bound inner) :=
  Keeps.then inferInstance fun token => by
    split
    all_goals try split
    all_goals infer_instance

instance : Onward (arguments bound inner) := keeps_bind

instance (token : Token) (left : Expression) : Onward (assignment inner token left) := by
  unfold assignment
  split <;> infer_instance

instance (left : Expression) : Onward (extend bound inner left) :=
  Keeps.then inferInstance fun token => by
    split
    · infer_instance
    · split <;> infer_instance

instance (power : BindingPower) (n : Nat) (left : Expression) :
    Onward (operators limit bound inner power n left) := by
  induction n generalizing left with
  | zero => exact keeps_exhausted
  | succ n ih => exact keeps_bind

instance (power : BindingPower) : Onward (expression limit bound inner power) := by
  rw [expression]
  infer_instance

instance : Onward (declaration inner) := keeps_bind

instance : Onward (resultValue inner) :=
  Keeps.then inferInstance fun next => by split <;> infer_instance

instance : Onward (result inner) := keeps_bind

instance : Onward (function bound inner) := keeps_bind

instance : Onward (statement bound inner) :=
  Keeps.then inferInstance fun token => by split <;> infer_instance

instance : Onward (item bound inner) := keeps_bind

instance (token : Token) : Onward (blockItem bound inner token) :=
  Keeps.then inferInstance fun _ => by split <;> infer_instance

instance : Onward (block bound inner) := keeps_bind

instance : Onward (programItem bound inner) :=
  Keeps.then inferInstance fun _ => by split <;> infer_instance

instance : (inner.next limit bound).Onward where
  expression _ := inferInstanceAs (Onward (expression limit bound inner _))
  block := inferInstanceAs (Onward (block bound inner))
  conditional _ := inferInstanceAs (Onward (conditional limit inner _))

end Productions

instance (limit n : Nat) : (Productions.upTo limit n).Onward := by
  induction n with
  | zero => exact ⟨fun _ => keeps_exhausted, keeps_exhausted, fun _ => keeps_exhausted⟩
  | succ n ih => exact inferInstanceAs ((Productions.upTo limit n).next limit (n + 1)).Onward

end Guion.Parser
