import Guion.Parser.Statement
import Guion.Proofs.Bounded

/-!
# What the steps of a parser do

One equation for each step: the state it ends in, and when it fails.
-/

set_option autoImplicit false

namespace Guion.Parser

open Bounded

variable {α : Type}

/-- The tokens after the current one. -/
def State.ahead (s : State) : List Token := s.tokens.tail

theorem State.current_of_tokens {s : State} {t : Token} {rest : List Token}
    (h : s.tokens = t :: rest) : s.current = t := by
  rw [State.current, h]
  rfl

theorem State.peek_of_ahead {s : State} {t : Token} {rest : List Token}
    (h : s.ahead = t :: rest) : s.peek = t := by
  show s.ahead.headD s.finish = t
  rw [h]
  rfl

theorem State.peek_of_ahead_nil {s : State} (h : s.ahead = []) : s.peek = s.finish := by
  show s.ahead.headD s.finish = s.finish
  rw [h]
  rfl

theorem State.tokens_of_ahead {s : State} {t : Token} {rest : List Token}
    (h : s.ahead = t :: rest) : s.tokens = s.current :: t :: rest := by
  cases left : s.tokens with
  | nil =>
    rw [State.ahead, left] at h
    cases h
  | cons u us =>
    rw [State.ahead, left] at h
    rw [State.current_of_tokens left]
    exact congrArg _ h

/-- Before the end of input, the next token is one of those ahead. -/
theorem State.ahead_of_kind {s : State} {kind : Token.Kind} (found : s.peek.kind = kind)
    (finish : s.finish.kind = .endOfInput) (before : kind ≠ .endOfInput) :
    s.ahead = s.peek :: s.ahead.tail := by
  cases rest : s.ahead with
  | nil =>
    rw [State.peek_of_ahead_nil rest, finish] at found
    exact absurd found.symm before
  | cons t ts => rw [State.peek_of_ahead rest, List.tail_cons]

/-- Before the end of input, the current token is one of those left. -/
theorem State.tokens_eq_cons {s : State} (finish : s.finish.kind = .endOfInput)
    (h : s.current.kind ≠ .endOfInput) : s.tokens = s.current :: s.ahead := by
  cases rest : s.tokens with
  | nil =>
    have last : s.current = s.finish := by simp [State.current, rest]
    rw [last] at h
    exact absurd finish h
  | cons t ts => rw [State.current_of_tokens rest, State.ahead, rest, List.tail_cons]

@[simp] theorem State.tokens_advance (s : State) : s.advance.tokens = s.ahead := rfl

theorem advance_apply (s : State) : advance s = .ok () s.advance := rfl

theorem current_bind (f : Token → Parser α) (s : State) : (current >>= f) s = f s.current s := rfl

theorem peek_bind (f : Token → Parser α) (s : State) : (peek >>= f) s = f s.peek s := rfl

theorem advance_bind (f : Unit → Parser α) (s : State) :
    (advance >>= f) s = f () s.advance := rfl

theorem expect_of_kind {kind : Token.Kind} {s : State} (h : s.peek.kind = kind) :
    expect kind s = .ok () s.advance := by
  show (if s.peek.kind = kind then advance else failAt _ _) s = _
  rw [if_pos h, advance_apply]

/-- A token that was expected is the next one. -/
theorem expect_eq_ok {kind : Token.Kind} {s t : State} (h : expect kind s = .ok () t) :
    s.peek.kind = kind ∧ t = s.advance := by
  have branch : (if s.peek.kind = kind then advance else failAt _ _) s = .ok () t := h
  by_cases found : s.peek.kind = kind
  · rw [if_pos found, advance_apply] at branch
    cases branch
    exact ⟨found, rfl⟩
  · rw [if_neg found] at branch
    cases branch

theorem skipSemicolon_apply (s : State) :
    skipSemicolon s = .ok () (if s.peek.kind = .semicolon then s.advance else s) := by
  show (if s.peek.kind = .semicolon then advance else pure ()) s = _
  by_cases found : s.peek.kind = .semicolon
  · rw [if_pos found, if_pos found, advance_apply]
  · rw [if_neg found, if_neg found]
    rfl

theorem enter_of_lt {limit : Nat} {s : State} (h : s.depth < limit) :
    enter limit s = .ok () { s with depth := s.depth + 1 } := by
  show (if limit ≤ s.depth then failAt _ _ else set _) s = _
  rw [if_neg (Nat.not_le.2 h)]
  rfl

/-- Entering a level changes nothing but the depth. -/
theorem enter_eq_ok {limit : Nat} {s t : State} (h : enter limit s = .ok () t) :
    s.depth < limit ∧ t = { s with depth := s.depth + 1 } := by
  by_cases room : s.depth < limit
  · rw [enter_of_lt room] at h
    cases h
    exact ⟨room, rfl⟩
  · have branch : (if limit ≤ s.depth then failAt _ _ else set _) s = .ok () t := h
    rw [if_pos (Nat.not_lt.1 room)] at branch
    cases branch

theorem ensuring_eq_ok {after : State → State} {p : Parser α} {s t : State} {a : α}
    (h : ensuring after p s = .ok a t) : ∃ u, p s = .ok a u ∧ t = after u := by
  rw [ensuring] at h
  cases run : p s with
  | ok b u =>
    rw [run] at h
    cases h
    exact ⟨u, rfl, rfl⟩
  | error e u =>
    rw [run] at h
    cases h

theorem nested_of_ok {limit : Nat} {p : Parser α} {s t : State} {a : α} (room : s.depth < limit)
    (run : p { s with depth := s.depth + 1 } = .ok a t) : nested limit p s = .ok a t.leave := by
  rw [nested, bind_of_ok (enter_of_lt room), ensuring, run]

theorem keepingDepth_of_ok {p : Parser α} {s t : State} {a : α} (run : p s = .ok a t) :
    keepingDepth p s = .ok a { t with depth := s.depth } := by
  show ensuring _ p s = _
  rw [ensuring, run]

/-- A conditional without a further branch ends after its block. -/
theorem alternative_of_ne {limit : Nat} {inner : Productions} {s : State}
    (not_sino : s.peek.kind ≠ .sino) (not_sinosi : s.peek.kind ≠ .sinosi) :
    alternative limit inner s = .ok none s := by
  rw [alternative, peek_bind]
  cases kind : s.peek.kind <;>
    first | rfl | exact absurd kind not_sino | exact absurd kind not_sinosi

/-- The loop over operators ends before a token that does not bind. -/
theorem operators_of_not_lt {limit bound k : Nat} {inner : Productions} {power : BindingPower}
    {left : Expression} {s : State} (stop : ¬ power < .ofKind s.peek.kind) :
    operators limit bound inner power (k + 1) left s = .ok left s := by
  rw [operators, peek_bind, if_neg stop]
  rfl

/-! ## Lists of statements -/

section Items

variable {bound : Nat} {inner : Productions} {s : State}

theorem resultValue_of_end (h : s.peek.kind = .semicolon ∨ s.peek.kind = .rightCurly ∨
    s.peek.kind = .endOfInput) : resultValue inner s = .ok none s := by
  rw [resultValue, peek_bind]
  rcases h with kind | kind | kind <;> rw [kind] <;> rfl

theorem resultValue_of_ne (not_semicolon : s.peek.kind ≠ .semicolon)
    (not_rightCurly : s.peek.kind ≠ .rightCurly) (not_end : s.peek.kind ≠ .endOfInput) :
    resultValue inner s = (some <$> nextExpression inner .lowest) s := by
  rw [resultValue, peek_bind]
  cases kind : s.peek.kind <;> first
    | rfl
    | exact absurd kind not_semicolon
    | exact absurd kind not_rightCurly
    | exact absurd kind not_end

theorem statement_of_semicolon (h : s.current.kind = .semicolon) :
    statement bound inner s = .ok none s := by
  rw [statement, current_bind, h]
  rfl

theorem statement_of_declaration (h : s.current.kind = .var ∨ s.current.kind = .constant) :
    statement bound inner s = (some <$> declaration inner) s := by
  rw [statement, current_bind]
  rcases h with kind | kind <;> rw [kind]

theorem statement_of_regresa (h : s.current.kind = .regresa) :
    statement bound inner s = (some <$> result inner) s := by
  rw [statement, current_bind, h]

theorem statement_of_func (h : s.current.kind = .func) (named : s.peek.kind = .identifier) :
    statement bound inner s = (some <$> function bound inner) s := by
  rw [statement, current_bind, h]
  show (if _ ∧ s.peek.kind = .identifier then some <$> function bound inner else _) s = _
  rw [if_pos ⟨rfl, named⟩]

/-- What starts as no other statement is an expression. -/
theorem statement_of_ne (not_semicolon : s.current.kind ≠ .semicolon)
    (not_var : s.current.kind ≠ .var) (not_constant : s.current.kind ≠ .constant)
    (not_regresa : s.current.kind ≠ .regresa)
    (unnamed : ¬ (s.current.kind = .func ∧ s.peek.kind = .identifier)) :
    statement bound inner s = (do
      let value ← inner.expression .lowest
      skipSemicolon
      return some (.expression s.current value) : Parser (Option Statement)) s := by
  have branch : statement bound inner s =
      (if s.current.kind = .func ∧ s.peek.kind = .identifier then some <$> function bound inner
      else do
        let value ← inner.expression .lowest
        skipSemicolon
        return some (.expression s.current value) : Parser (Option Statement)) s := by
    rw [statement, current_bind]
    cases kind : s.current.kind <;> first
      | rfl
      | exact absurd kind not_semicolon
      | exact absurd kind not_var
      | exact absurd kind not_constant
      | exact absurd kind not_regresa
  rw [branch, if_neg unnamed]

/-- A well-formed statement is kept, and its last token passed. -/
theorem item_of_ok {found : Option Statement} {t : State}
    (run : statement bound inner s = .ok found t) :
    item bound inner s = .ok found.toList t.advance := by
  have kept : recovering (statement bound inner) s = .ok found t := by rw [recovering, run]
  rw [item, bind_of_ok kept]
  rfl

theorem blockItem_of_rightCurly (token : Token) (h : s.current.kind = .rightCurly) :
    blockItem bound inner token s = .ok none s := by
  rw [blockItem, current_bind, h]
  rfl

theorem blockItem_of_endOfInput (token : Token) (h : s.current.kind = .endOfInput) :
    blockItem bound inner token s = .error (.error ⟨token.pos, .unterminatedBlock⟩) s := by
  rw [blockItem, current_bind, h]
  rfl

theorem blockItem_of_ne (token : Token) (inside : s.current.kind ≠ .rightCurly)
    (before : s.current.kind ≠ .endOfInput) :
    blockItem bound inner token s = (some <$> item bound inner) s := by
  rw [blockItem, current_bind, map_eq_bind]
  cases kind : s.current.kind <;> first | rfl | exact absurd kind inside | exact absurd kind before

theorem programItem_of_endOfInput (h : s.current.kind = .endOfInput) :
    programItem bound inner s = .ok none s := by
  rw [programItem, current_bind, h]
  rfl

theorem programItem_of_ne (before : s.current.kind ≠ .endOfInput) :
    programItem bound inner s = (some <$> item bound inner) s := by
  rw [programItem, current_bind, map_eq_bind]
  cases kind : s.current.kind <;> first | rfl | exact absurd kind before

theorem map_some_of_ok {α : Type} {p : Parser α} {a : α} {s t : State} (h : p s = .ok a t) :
    (some <$> p) s = .ok (some a) t := by
  rw [map_eq_bind, bind_of_ok h]
  rfl

theorem map_some_eq_ok {α : Type} {p : Parser α} {a : α} {s t : State}
    (h : (some <$> p) s = .ok (some a) t) : p s = .ok a t := by
  rw [map_eq_bind] at h
  obtain ⟨b, u, first, rest⟩ := bind_eq_ok_iff.1 h
  cases rest
  exact first

/-- A round that goes on has read a statement inside the block. -/
theorem blockItem_eq_some {token : Token} {found : List Statement} {t : State}
    (h : blockItem bound inner token s = .ok (some found) t) :
    s.current.kind ≠ .rightCurly ∧ s.current.kind ≠ .endOfInput ∧
      item bound inner s = .ok found t := by
  by_cases closing : s.current.kind = .rightCurly
  · rw [blockItem_of_rightCurly token closing] at h
    cases h
  · by_cases ended : s.current.kind = .endOfInput
    · rw [blockItem_of_endOfInput token ended] at h
      cases h
    · rw [blockItem_of_ne token closing ended] at h
      exact ⟨closing, ended, map_some_eq_ok h⟩

/-- A round that goes on has read a statement before the end of input. -/
theorem programItem_eq_some {found : List Statement} {t : State}
    (h : programItem bound inner s = .ok (some found) t) :
    s.current.kind ≠ .endOfInput ∧ item bound inner s = .ok found t := by
  by_cases ended : s.current.kind = .endOfInput
  · rw [programItem_of_endOfInput ended] at h
    cases h
  · rw [programItem_of_ne ended] at h
    exact ⟨ended, map_some_eq_ok h⟩

/-- A round that stops is at the end of input. -/
theorem programItem_eq_none {t : State} (h : programItem bound inner s = .ok none t) :
    t = s ∧ s.current.kind = .endOfInput := by
  by_cases ended : s.current.kind = .endOfInput
  · rw [programItem_of_endOfInput ended] at h
    cases h
    exact ⟨rfl, ended⟩
  · rw [programItem_of_ne ended, map_eq_bind] at h
    obtain ⟨_, _, _, last⟩ := bind_eq_ok_iff.1 h
    cases last

end Items

end Guion.Parser
