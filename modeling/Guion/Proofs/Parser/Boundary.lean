import Guion.Proofs.Parser.Balance
import Mathlib.Tactic.SplitIfs

/-!
# Boundaries that recovery does not pass

A malformed statement is skipped up to its semicolon or to just before the brace that closes the
enclosing block.  Fix a semicolon before which all braces are closed (`Boundary`).  A parser inside
`b` blocks that has at least `b` braces open before the token it stands on and after it
(`Stands`) still has after skipping a malformed statement (`Stands.resume`): so recovery passes
neither the brace that closes the enclosing block nor the boundary.

The states of a parser on the way to the boundary are told apart by what is open around the current
token.  Only where an operand is due in front of a closing brace (`Due`) can the parser come to
stand on the brace of its own block.
-/

set_option autoImplicit false

namespace Guion

/-- The fault of an expression that is due and does not start. -/
def SyntaxError.Fault.atOperand : SyntaxError.Fault → Bool
  | .noOperand _ | .nestingTooDeep _ => true
  | _ => false

/-- An operand is due after a token of this kind. -/
def Token.Kind.wantsOperand : Token.Kind → Bool
  | .assign | .equal | .notEqual | .less | .lessEqual | .greater | .greaterEqual | .plus | .minus
  | .star | .slash | .bang | .leftParen | .leftBracket | .comma | .colon => true
  | _ => false

/-! ## Balanced braces -/

/-- With `opened` braces open before the tokens, none is closed that is not open, and all are closed
in the end. -/
def balanced (opened : Nat) : List Token → Bool
  | [] => opened = 0
  | t :: ts =>
    match t.kind with
    | .leftCurly => balanced (opened + 1) ts
    | .rightCurly => 0 < opened && balanced (opened - 1) ts
    | _ => balanced opened ts

theorem balanced_cons (opened : Nat) (t : Token) (ts : List Token) :
    balanced opened (t :: ts) =
      match t.kind with
      | .leftCurly => balanced (opened + 1) ts
      | .rightCurly => 0 < opened && balanced (opened - 1) ts
      | _ => balanced opened ts := rfl

theorem balanced_append {ts : List Token} : ∀ {opened : Nat}, balanced opened ts = true →
    ∀ k us, balanced (opened + k) (ts ++ us) = balanced k us := by
  induction ts with
  | nil =>
    intro opened h k us
    have none : opened = 0 := of_decide_eq_true h
    rw [none, Nat.zero_add, List.nil_append]
  | cons t ts ih =>
    intro opened h k us
    rw [balanced_cons] at h
    rw [List.cons_append, balanced_cons]
    split at h
    · rw [Nat.add_right_comm]
      exact ih h k us
    · obtain ⟨some_open, h⟩ := Bool.and_eq_true_iff.1 h
      have positive : 0 < opened := of_decide_eq_true some_open
      rw [Nat.sub_add_comm positive, ih h k us]
      simp [Nat.add_pos_left positive]
    · exact ih h k us

namespace Parser

/-- A semicolon among tokens, those in front of it and those after it. -/
structure Boundary where
  front : List Token
  semicolon : Token
  rest : List Token
  kind : semicolon.kind = .semicolon
  inside : ∀ t ∈ front, t.kind ≠ .endOfInput

namespace Boundary

variable (B : Boundary)

/-- With `d` braces open, the tokens up to the boundary close them all. -/
def Before (d : Nat) (ts : List Token) : Prop :=
  ∃ mid, mid <:+ B.front ∧ balanced d mid = true ∧ ts = mid ++ B.semicolon :: B.rest

/-- At least `b` braces are open before the tokens. -/
def Open (b : Nat) (ts : List Token) : Prop := ∃ d, b ≤ d ∧ B.Before d ts

variable {B}

/-- What the first token can be, and what is open after it. -/
theorem Before.cons_cases {d : Nat} {t : Token} {ts : List Token} (h : B.Before d (t :: ts)) :
    d = 0 ∧ t :: ts = B.semicolon :: B.rest ∨
    (t.kind = .rightCurly ∧ ∃ k, d = k + 1 ∧ B.Before k ts) ∨
    (t.kind = .leftCurly ∧ B.Before (d + 1) ts) ∨
    t.kind ≠ .rightCurly ∧ t.kind ≠ .leftCurly ∧ B.Before d ts := by
  obtain ⟨mid, suffix, closes, tokens⟩ := h
  cases mid with
  | nil => exact .inl ⟨of_decide_eq_true closes, tokens⟩
  | cons u mid =>
    obtain ⟨rfl, rfl⟩ := List.cons.inj tokens
    have shorter : mid <:+ B.front := (List.suffix_cons _ _).trans suffix
    rw [balanced_cons] at closes
    split at closes
    next opening => exact .inr (.inr (.inl ⟨opening, mid, shorter, closes, rfl⟩))
    next closing =>
      obtain ⟨some_open, closes⟩ := Bool.and_eq_true_iff.1 closes
      obtain ⟨k, rfl⟩ := Nat.exists_eq_succ_of_ne_zero (Nat.ne_of_gt (of_decide_eq_true some_open))
      exact .inr (.inl ⟨closing, k, rfl, mid, shorter, closes, rfl⟩)
    next not_opening not_closing =>
      exact .inr (.inr (.inr ⟨not_closing, not_opening, mid, shorter, closes, rfl⟩))

namespace Open

variable {b c : Nat} {t : Token} {ts : List Token}

theorem mono (h : B.Open b ts) (le : c ≤ b) : B.Open c ts := by
  obtain ⟨d, few, before⟩ := h
  exact ⟨d, Nat.le_trans le few, before⟩

/-- There is a token before the boundary or at it. -/
theorem exists_cons (h : B.Open b ts) :
    ∃ t us, ts = t :: us ∧ t ∈ B.front ++ [B.semicolon] ∧ t.kind ≠ .endOfInput := by
  obtain ⟨d, -, mid, suffix, -, rfl⟩ := h
  cases mid with
  | nil => exact ⟨_, _, rfl, by simp, by rw [B.kind]; decide⟩
  | cons t mid =>
    have member : t ∈ B.front := suffix.subset List.mem_cons_self
    exact ⟨t, _, rfl, List.mem_append_left _ member, B.inside t member⟩

/-- A closing brace closes one of those that are open. -/
theorem closing (h : B.Open b (t :: ts)) (kind : t.kind = .rightCurly) : B.Open (b - 1) ts := by
  obtain ⟨d, few, before⟩ := h
  rcases before.cons_cases with ⟨-, boundary⟩ | ⟨-, k, rfl, next⟩ | ⟨other, -⟩ | ⟨other, -⟩
  · rw [(List.cons.inj boundary).1, B.kind] at kind
    cases kind
  · exact ⟨k, by omega, next⟩
  · rw [kind] at other
    cases other
  · exact absurd kind other

theorem opening (h : B.Open b (t :: ts)) (kind : t.kind = .leftCurly) : B.Open (b + 1) ts := by
  obtain ⟨d, few, before⟩ := h
  rcases before.cons_cases with ⟨-, boundary⟩ | ⟨other, -⟩ | ⟨-, next⟩ | ⟨-, other, -⟩
  · rw [(List.cons.inj boundary).1, B.kind] at kind
    cases kind
  · rw [kind] at other
    cases other
  · exact ⟨d + 1, by omega, next⟩
  · exact absurd kind other

/-- A token that is no brace leaves as many open, unless it is the boundary. -/
theorem other (h : B.Open b (t :: ts)) (not_closing : t.kind ≠ .rightCurly)
    (not_opening : t.kind ≠ .leftCurly) :
    B.Open b ts ∨ b = 0 ∧ t :: ts = B.semicolon :: B.rest := by
  obtain ⟨d, few, before⟩ := h
  rcases before.cons_cases with ⟨rfl, boundary⟩ | ⟨kind, -⟩ | ⟨kind, -⟩ | ⟨-, -, next⟩
  · exact .inr ⟨Nat.le_zero.1 few, boundary⟩
  · exact absurd kind not_closing
  · exact absurd kind not_opening
  · exact .inl ⟨d, few, next⟩

end Open

/-! ## Skipping a malformed statement -/

variable (B) in
/-- Standing on a token with at least `b` braces open before and after it, or on the boundary. -/
def Stands (b : Nat) (ts : List Token) : Prop :=
  B.Open b ts ∧ B.Open b ts.tail ∨ b = 0 ∧ ts = B.semicolon :: B.rest

theorem head_of_not_atBlockEnd {ts : List Token} (h : ¬ atBlockEnd ts = true) :
    ∀ t ∈ ts.head?, t.kind ≠ .rightCurly := by
  cases ts with
  | nil => simp
  | cons t ts =>
    rintro _ ⟨⟩ kind
    exact h (by simp [atBlockEnd, kind])

theorem resume_cons {opened after : Nat} {t : Token} {rest : List Token}
    (count : (match t.kind with
      | .leftCurly => opened + 1
      | .rightCurly => opened - 1
      | _ => opened) = after) :
    resume opened (t :: rest) =
      if after = 0 ∧ (t.kind = .semicolon ∨ atBlockEnd rest) then t :: rest
      else resume after rest := by
  subst count
  rfl

theorem opened_of_ne {t : Token} (opened : Nat) (not_opening : t.kind ≠ .leftCurly)
    (not_closing : t.kind ≠ .rightCurly) :
    (match t.kind with
      | .leftCurly => opened + 1
      | .rightCurly => opened - 1
      | _ => opened) = opened := by
  split
  · exact absurd ‹_› not_opening
  · exact absurd ‹_› not_closing
  · rfl

/-- A token that is no brace leaves as many open. -/
theorem resume_cons_of_ne {opened : Nat} {t : Token} {rest : List Token}
    (not_opening : t.kind ≠ .leftCurly) (not_closing : t.kind ≠ .rightCurly) :
    resume opened (t :: rest) =
      if opened = 0 ∧ (t.kind = .semicolon ∨ atBlockEnd rest) then t :: rest
      else resume opened rest :=
  resume_cons (opened_of_ne opened not_opening not_closing)

/-- Past the first token, no brace is reached that was not opened on the way. -/
theorem stands_resume {b : Nat} (ts : List Token) : ∀ opened, B.Open (b + opened) ts →
    (opened = 0 → ∀ t ∈ ts.head?, t.kind ≠ .rightCurly) → B.Stands b (resume opened ts) := by
  induction ts with
  | nil =>
    intro opened h _
    obtain ⟨_, _, none, -⟩ := h.exists_cons
    cases none
  | cons t rest ih =>
    intro opened h head
    have here : B.Open b (t :: rest) := h.mono (Nat.le_add_right _ _)
    -- parsing resumes here, or goes on with the braces that are open then
    have passed {after : Nat} (count : (match t.kind with
        | .leftCurly => opened + 1
        | .rightCurly => opened - 1
        | _ => opened) = after) (next : B.Open (b + after) rest) :
        B.Stands b (resume opened (t :: rest)) := by
      rw [resume_cons count]
      split_ifs with stop
      · exact .inl ⟨here, next.mono (Nat.le_add_right _ _)⟩
      · exact ih after next fun none => head_of_not_atBlockEnd fun ends => stop ⟨none, .inr ends⟩
    by_cases closing : t.kind = .rightCurly
    · -- it closes a brace that was opened on the way
      obtain ⟨k, rfl⟩ : ∃ k, opened = k + 1 :=
        Nat.exists_eq_succ_of_ne_zero fun none => head none t rfl closing
      exact passed (by rw [closing]; rfl) (h.closing closing)
    · by_cases opening : t.kind = .leftCurly
      · exact passed (by rw [opening]) (h.opening opening)
      · rcases h.other closing opening with next | ⟨none, boundary⟩
        · exact passed (opened_of_ne opened opening closing) next
        · obtain ⟨rfl, rfl⟩ := List.cons.inj boundary
          rw [resume_cons_of_ne opening closing, if_pos ⟨by omega, .inl B.kind⟩]
          exact .inr ⟨by omega, rfl⟩

/-- Recovery from where a parser stands ends where it may stand. -/
theorem Stands.resume {b : Nat} {ts : List Token} (h : B.Stands b ts) :
    B.Stands b (resume 0 ts) := by
  rcases h with ⟨here, past⟩ | ⟨rfl, rfl⟩
  · obtain ⟨t, us, rfl, -⟩ := here.exists_cons
    by_cases closing : t.kind = .rightCurly
    · -- the brace that the parser stands on is not the one of its block
      have count : (match t.kind with
          | .leftCurly => 0 + 1
          | .rightCurly => 0 - 1
          | _ => 0) = 0 := by rw [closing]
      rw [resume_cons count]
      split_ifs with stop
      · exact .inl ⟨here, past⟩
      · exact stands_resume us 0 past fun _ =>
          head_of_not_atBlockEnd fun ends => stop ⟨rfl, .inr ends⟩
    · refine stands_resume (t :: us) 0 here fun _ => ?_
      rintro _ ⟨⟩
      exact closing
  · refine stands_resume _ 0 ⟨0, Nat.le_refl _, [], List.nil_suffix, rfl, rfl⟩ fun _ => ?_
    rintro _ ⟨⟩
    rw [B.kind]
    decide

/-! ## States -/

variable (B) in
/-- The error was found at a token in front of the boundary, or at the boundary. -/
def Found (e : SyntaxError) : Prop := ∃ t ∈ B.front ++ [B.semicolon], e.pos = t.pos

variable (B) in
/-- The token closes a brace where an operand is due. -/
def Due (t : Token) : Prop :=
  t.kind = .rightCurly ∧ ∃ p : Token, p.kind.wantsOperand = true ∧ [p, t] <:+: B.front

variable (B) in
/-- An operand was missing where a brace closes. -/
def Stuck (e : SyntaxError) : Prop := e.fault.atOperand = true ∧ ∃ t, B.Due t ∧ e.pos = t.pos

variable (B) in
/-- All errors were found up to the boundary. -/
def Clear (s : State) : Prop := ∀ e ∈ s.errors.toList, B.Found e

variable (B) in
/-- An error is that an operand was missing where a brace closes. -/
def Tainted (s : State) : Prop := ∃ e ∈ s.errors.toList, B.Stuck e

variable (B) in
/-- At least `b` braces are open before the current token. -/
structure Within (b : Nat) (s : State) : Prop where
  here : B.Open b s.tokens
  errors : B.Clear s

variable (B) in
/-- At least `b` braces are open before the current token, and `c` after it. -/
structure Between (b c : Nat) (s : State) : Prop where
  here : B.Open b s.tokens
  past : B.Open c s.ahead
  errors : B.Clear s

variable (B) in
/-- At least `b` braces are open before the current token and after it. -/
abbrev Safe (b : Nat) : State → Prop := B.Between b b

variable (B) in
/-- Safe, or at the boundary outside all blocks. -/
structure Done (b : Nat) (s : State) : Prop where
  stands : B.Stands b s.tokens
  errors : B.Clear s

variable (B) in
/-- At least `b` braces are open before the current token, or the boundary was passed outside all
blocks. -/
def After (b : Nat) (s : State) : Prop :=
  B.Within b s ∨ b = 0 ∧ s.tokens = B.rest ∧ B.Clear s

variable (B) in
/-- A statement is due: the current token does not close the enclosing block. -/
def Begins (b : Nat) (s : State) : Prop :=
  B.Within b s ∧ (s.current.kind = .rightCurly → b = 0)

variable (B) in
/-- An expression is due: the current token does not close the enclosing block, or an operand is
missing before it. -/
def Starting (b : Nat) (s : State) : Prop :=
  B.Within b s ∧ (s.current.kind = .rightCurly → b = 0 ∨ B.Due s.current)

variable (B) in
/-- Safe, with an expression due at the next token. -/
def Wants (b : Nat) (s : State) : Prop :=
  B.Safe b s ∧ (s.peek.kind = .rightCurly → s.current.kind.wantsOperand = true)

variable (B) in
/-- Where an expression does not start, an operand is missing in front of a brace, or the parser is
where it may stand. -/
def Stops (b : Nat) (s : State) : Prop := ∀ fault : SyntaxError.Fault, fault.atOperand = true →
  B.Stuck ⟨s.current.pos, fault⟩ ∨ B.Found ⟨s.current.pos, fault⟩ ∧ B.Done b s

/-- A token of this kind leaves as many braces open, and is not the boundary. -/
def Plain (kind : Token.Kind) : Bool :=
  kind ≠ .rightCurly && kind ≠ .leftCurly && kind ≠ .semicolon

section States

variable {b c : Nat} {s : State}

theorem Between.within (h : B.Between b c s) : B.Within b s := ⟨h.here, h.errors⟩

theorem Between.of_deeper (h : B.Safe (b + 1) s) : B.Between b (b + 1) s :=
  ⟨h.here.mono (Nat.le_succ b), h.past, h.errors⟩

theorem Between.done (h : B.Between b c s) (le : b ≤ c) : B.Done b s :=
  ⟨.inl ⟨h.here, h.past.mono le⟩, h.errors⟩

theorem Between.advance (h : B.Between b c s) : B.Within c s.advance := ⟨h.past, h.errors⟩

theorem Done.lower (h : B.Done c s) (le : b ≤ c) : B.Done b s := by
  rcases h.stands with ⟨here, past⟩ | ⟨rfl, boundary⟩
  · exact ⟨.inl ⟨here.mono le, past.mono le⟩, h.errors⟩
  · exact ⟨.inr ⟨Nat.le_zero.1 le, boundary⟩, h.errors⟩

theorem Done.advance (h : B.Done b s) : B.After b s.advance := by
  rcases h.stands with ⟨here, past⟩ | ⟨none, boundary⟩
  · exact .inl ⟨past, h.errors⟩
  · refine .inr ⟨none, ?_, h.errors⟩
    rw [State.tokens_advance, State.ahead, boundary]
    rfl

theorem Done.recover (h : B.Done b s) {e : SyntaxError} (found : B.Found e) :
    B.Done b (s.recover e) := by
  refine ⟨h.stands.resume, fun e' member => ?_⟩
  simp only [State.recover, Array.toList_push, List.mem_append, List.mem_singleton] at member
  rcases member with old | rfl
  · exact h.errors e' old
  · exact found

theorem Within.current_mem (h : B.Within b s) : s.current ∈ B.front ++ [B.semicolon] := by
  obtain ⟨t, us, tokens, member, -⟩ := h.here.exists_cons
  rw [State.current_of_tokens tokens]
  exact member

theorem Within.before_end (h : B.Within b s) : s.current.kind ≠ .endOfInput := by
  obtain ⟨t, us, tokens, -, before⟩ := h.here.exists_cons
  rw [State.current_of_tokens tokens]
  exact before

theorem Within.tokens (h : B.Within b s) : s.tokens = s.current :: s.ahead := by
  obtain ⟨t, us, tokens, -⟩ := h.here.exists_cons
  rw [State.current_of_tokens tokens, State.ahead, tokens, List.tail_cons]

theorem Within.opened (h : B.Within b s) : B.Open b (s.current :: s.ahead) := h.tokens ▸ h.here

theorem Within.of_plain (h : B.Within b s) (plain : Plain s.current.kind = true) : B.Safe b s := by
  simp only [Plain, Bool.and_eq_true, decide_eq_true_eq] at plain
  obtain ⟨⟨not_closing, not_opening⟩, not_semicolon⟩ := plain
  refine ⟨h.here, ?_, h.errors⟩
  rcases h.opened.other not_closing not_opening with past | ⟨-, boundary⟩
  · exact past
  · rw [(List.cons.inj boundary).1] at not_semicolon
    exact absurd B.kind not_semicolon

theorem Within.of_semicolon (h : B.Within b s) (kind : s.current.kind = .semicolon) :
    B.Done b s := by
  refine ⟨?_, h.errors⟩
  rcases h.opened.other (by rw [kind]; decide) (by rw [kind]; decide) with past | ⟨none, boundary⟩
  · exact .inl ⟨h.here, past⟩
  · exact .inr ⟨none, h.tokens.trans boundary⟩

theorem Within.of_opening (h : B.Within b s) (kind : s.current.kind = .leftCurly) :
    B.Between b (b + 1) s :=
  ⟨h.here, h.opened.opening kind, h.errors⟩

theorem Within.of_closing (h : B.Within (b + 1) s) (kind : s.current.kind = .rightCurly) :
    B.Safe b s :=
  ⟨h.here.mono (Nat.le_succ b), h.opened.closing kind, h.errors⟩

/-- A brace right after a token that wants an operand closes where one is due. -/
theorem Between.due (h : B.Safe b s) (closing : s.peek.kind = .rightCurly)
    (wants : s.current.kind.wantsOperand = true) : B.Due s.peek := by
  refine ⟨closing, s.current, wants, ?_⟩
  obtain ⟨d, -, mid, suffix, -, tokens⟩ := h.here
  have pair : s.tokens = s.current :: s.peek :: s.ahead.tail := by
    rw [h.within.tokens, ← State.tokens_advance, h.advance.tokens]
    rfl
  rw [pair] at tokens
  -- neither of the two is the boundary
  cases mid with
  | nil =>
    rw [(List.cons.inj tokens).1, B.kind] at wants
    cases wants
  | cons first mid =>
    obtain ⟨rfl, others⟩ := List.cons.inj tokens
    cases mid with
    | nil =>
      rw [(List.cons.inj others).1, B.kind] at closing
      cases closing
    | cons second mid =>
      rw [← (List.cons.inj others).1] at suffix
      exact (List.prefix_append [s.current, s.peek] mid).isInfix.trans suffix.isInfix

theorem Wants.advance (h : B.Wants b s) : B.Starting b s.advance :=
  ⟨h.1.advance, fun closing => .inr (h.1.due closing (h.2 closing))⟩

theorem Begins.starting (h : B.Begins b s) : B.Starting b s :=
  ⟨h.1, fun closing => .inl (h.2 closing)⟩

theorem Between.wants (h : B.Safe b s) (wants : s.current.kind.wantsOperand = true) :
    B.Wants b s :=
  ⟨h, fun _ => wants⟩

theorem Between.stops (h : B.Safe b s) : B.Stops b s :=
  fun _ _ => .inr ⟨⟨s.current, h.within.current_mem, rfl⟩, h.done (Nat.le_refl b)⟩

theorem Starting.stops (h : B.Starting b s) : B.Stops b s := by
  obtain ⟨within, brace⟩ := h
  intro fault due
  have found : B.Found ⟨s.current.pos, fault⟩ := ⟨s.current, within.current_mem, rfl⟩
  by_cases closing : s.current.kind = .rightCurly
  · rcases brace closing with rfl | missing
    · -- outside all blocks a brace closes none of them
      exact .inr ⟨found, .inl ⟨within.here, within.opened.closing closing⟩, within.errors⟩
    · exact .inl ⟨due, s.current, missing, rfl⟩
  · refine .inr ⟨found, ?_⟩
    by_cases opening : s.current.kind = .leftCurly
    · exact (within.of_opening opening).done (Nat.le_succ b)
    · by_cases semicolon : s.current.kind = .semicolon
      · exact within.of_semicolon semicolon
      · exact (within.of_plain (by simp [Plain, closing, opening, semicolon])).done (Nat.le_refl b)

end States

end Boundary

end Parser

end Guion
