import Guion.Proofs.Parser.Progress

/-!
# Parsers finish

The bounds given to the productions are never reached: each repetition and each way back into an
expression, a block or a conditional uses a token up (`finishes_upTo`), so a whole program is
read without exhausting them (`finishes_program`).
-/

set_option autoImplicit false

namespace Guion.Parser

open Bounded

variable {α : Type}

/-- Fewer than `n` tokens are left. -/
def State.Within (n : Nat) (s : State) : Prop :=
  s.finish.kind = .endOfInput ∧ s.tokens.length < n

/-- Fewer than `n` tokens are left after the current one. -/
def State.Room (n : Nat) (s : State) : Prop :=
  s.finish.kind = .endOfInput ∧ s.ahead.length < n

theorem State.Within.room {n : Nat} {s : State} (h : s.Within n) : s.Room n := by
  refine ⟨h.1, ?_⟩
  have shorter := h.2
  simp only [State.ahead, List.length_tail]
  omega

theorem State.Room.length_le {n : Nat} {s : State} (h : s.Room n) : s.tokens.length < n + 1 := by
  have shorter := h.2
  simp only [State.ahead, List.length_tail] at shorter
  omega

theorem State.Room.advance {n : Nat} {s : State} (h : s.Room n) : s.advance.Within n := h

instance (n : Nat) : Closed State.Ahead (State.Within n) where
  closed _ _ ahead within :=
    ⟨ahead.finish ▸ within.1, Nat.lt_of_le_of_lt ahead.length_tokens_le within.2⟩

instance (n : Nat) : Closed State.Ahead (State.Room n) where
  closed _ _ ahead room :=
    ⟨ahead.finish ▸ room.1, Nat.lt_of_le_of_lt ahead.length_ahead_le room.2⟩

/-- A run that starts by using a token up leaves fewer. -/
theorem State.length_tokens_lt {s t : State} (h : s.advance.Ahead t) (left : s.tokens ≠ []) :
    t.tokens.length < s.tokens.length := by
  have shorter := h.length_tokens_le
  have some_left := List.length_pos_iff.2 left
  simp only [State.tokens_advance, State.ahead, List.length_tail] at shorter
  omega

theorem State.tokens_ne_nil {s : State} (finish : s.finish.kind = .endOfInput)
    (h : s.peek.kind ≠ .endOfInput) : s.tokens ≠ [] := by
  intro none_left
  have last : s.peek = s.finish := by simp [State.peek, none_left]
  rw [last] at h
  exact h finish

/-! ## Steps -/

section Steps

variable {P : State → Prop}

instance [Closed State.Ahead P] {β : Type} {p : Parser α} {f : α → Parser β} [Onward p]
    [Finishes P p] [∀ a, Finishes P (f a)] : Finishes P (p >>= f) :=
  Finishes.then (R := State.Ahead) inferInstance inferInstance

instance : Finishes P current := ⟨fun _ _ _ h => by cases h⟩

instance : Finishes P peek := ⟨fun _ _ _ h => by cases h⟩

instance (pos : Position) (fault : SyntaxError.Fault) :
    Finishes P (failAt pos fault : Parser α) :=
  finishes_fail _

instance (fault : SyntaxError.Fault) : Finishes P (failHere fault : Parser α) :=
  ⟨fun _ _ _ h => by cases h⟩

instance (kind : Token.Kind) : Finishes P (expect kind) := by
  constructor
  intro s _ t h
  have branch : (if s.peek.kind = kind then advance else failAt _ _) s = .error .exhausted t := h
  split at branch <;> cases branch

instance (limit : Nat) : Finishes P (enter limit) := by
  constructor
  intro s _ t h
  have branch : (if limit ≤ s.depth then failAt _ _ else set _) s = .error .exhausted t := h
  split at branch <;> cases branch

instance : Finishes P skipSemicolon := by
  constructor
  intro s _ t h
  rw [skipSemicolon_apply] at h
  cases h

theorem finishes_ensuring (after : State → State) {p : Parser α} (act : Finishes P p) :
    Finishes P (ensuring after p) := by
  constructor
  intro s hs t h
  rw [ensuring] at h
  cases run : p s with
  | ok a u =>
    rw [run] at h
    cases h
  | error e u =>
    rw [run] at h
    cases h
    exact act.ne_exhausted s hs u run

variable [closed : Closed State.Ahead P]

instance {β : Type} (g : α → β) {p : Parser α} [Onward p] [Finishes P p] :
    Finishes P (g <$> p) := by
  rw [map_eq_bind]
  infer_instance

instance : Finishes P expectIdentifier := by
  rw [expectIdentifier]
  infer_instance

instance (limit : Nat) {p : Parser α} [act : Finishes P p] : Finishes P (nested limit p) :=
  Finishes.then (R := State.Ahead) inferInstance fun _ => finishes_ensuring _ act

instance {p : Parser α} [act : Finishes P p] : Finishes P (keepingDepth p) := by
  constructor
  intro s hs t h
  exact (finishes_ensuring _ act).ne_exhausted s hs t h

instance {p : Parser (Option α)} [act : Finishes P p] : Finishes P (recovering p) := by
  constructor
  intro s hs t h
  rw [recovering] at h
  cases run : p s with
  | ok a u =>
    rw [run] at h
    cases h
  | error e u =>
    rw [run] at h
    cases e with
    | error e => cases h
    | exhausted => exact act.ne_exhausted s hs u run

end Steps

/-! ## Using a token up -/

section Room

variable {n : Nat}

instance {p : Parser α} [finishes : Finishes (State.Room n) p] : Finishes (State.Within n) p :=
  finishes.mono fun _ within => within.room

/-- Past the next token, fewer tokens are left than were ahead. -/
instance {f : Unit → Parser α} [rest : Finishes (State.Within n) (f ())] :
    Finishes (State.Room n) (advance >>= f) :=
  ⟨fun s room t h => rest.ne_exhausted s.advance room.advance t h⟩

instance (kind : Token.Kind) {f : Unit → Parser α}
    [rest : Finishes (State.Within n) (f ())] : Finishes (State.Room n) (expect kind >>= f) := by
  constructor
  intro s room t h
  rcases bind_eq_error_iff.1 h with h | ⟨_, u, h, h'⟩
  · exact Finishes.ne_exhausted (P := State.Room n) s room t h
  · obtain ⟨-, rfl⟩ := expect_eq_ok h
    exact rest.ne_exhausted s.advance room.advance t h'

/-- What finishes with room for the tokens ahead finishes with room for all, if it does at the end
of input. -/
theorem finishes_within_succ {p : Parser α} (before : Finishes (State.Room n) p)
    (atEnd : ∀ s : State, s.finish.kind = .endOfInput → s.tokens = [] →
      ∀ t, p s ≠ .error .exhausted t) : Finishes (State.Within (n + 1)) p := by
  constructor
  intro s within
  -- with a token left, the current one is not counted among those ahead
  by_cases none_left : s.tokens = []
  · exact atEnd s within.1 none_left
  · refine before.ne_exhausted s ⟨within.1, ?_⟩
    have shorter := within.2
    have some_left := List.length_pos_iff.2 none_left
    simp only [State.ahead, List.length_tail]
    omega

end Room

/-! ## Productions -/

/-- The productions one level further in finish with fewer than `n` tokens left. -/
class Productions.Finishing (n : Nat) (inner : Productions) : Prop where
  expression : ∀ power, Finishes (State.Within n) (inner.expression power)
  block : Finishes (State.Within n) inner.block
  conditional : ∀ token, Finishes (State.Within n) (inner.conditional token)

section Productions

variable (limit : Nat) {n : Nat} (inner : Productions) [inner.Onward]
  [finishing : inner.Finishing n]

instance (power : BindingPower) : Finishes (State.Within n) (inner.expression power) :=
  finishing.expression power

instance : Finishes (State.Within n) inner.block := finishing.block

instance (token : Token) : Finishes (State.Within n) (inner.conditional token) :=
  finishing.conditional token

/-- A round of a repetition that starts by using a token up leaves fewer. -/
theorem round_smaller {s u t : State} (room : s.Room n) (next : s.peek.kind ≠ .endOfInput)
    (start : u = s.advance) (rest : u.Ahead t) :
    t.Room n ∧ t.tokens.length < s.tokens.length := by
  subst start
  exact ⟨Closed.closed s t (IsTrans.trans _ _ _ s.ahead_advance rest) room,
    State.length_tokens_lt rest (State.tokens_ne_nil room.1 next)⟩

omit [inner.Onward] finishing in
instance (item : Parser α) [Onward item] [Finishes (State.Room n) item] :
    Finishes (State.Room n) (commaItem item) := by
  rw [commaItem]
  infer_instance

omit [inner.Onward] finishing in
instance (item : Parser α) [Onward item] [Finishes (State.Room n) item] :
    Finishes (State.Room n) (commaSeparated (n + 1) item) := by
  refine (finishes_collect (P := State.Room n) (fun s => s.tokens.length) inferInstance ?_
    (n + 1)).mono fun s room => ⟨room, room.length_le⟩
  intro s a t room h
  rw [commaItem, peek_bind] at h
  by_cases comma : s.peek.kind = .comma
  · rw [if_pos comma, advance_bind] at h
    exact round_smaller room (by simp [comma]) rfl (Keeps.ok h)
  · rw [if_neg comma] at h
    cases h

instance (power : BindingPower) : Finishes (State.Room n) (nextExpression inner power) := by
  rw [nextExpression]
  infer_instance

omit [inner.Onward] finishing in
instance : Finishes (State.Room n) (parameters (n + 1)) := by
  rw [parameters]
  infer_instance

instance : Finishes (State.Room n) (functionRest (n + 1) inner) := by
  rw [functionRest]
  infer_instance

instance (token : Token) (op : UnaryOp) : Finishes (State.Room n) (unary inner token op) := by
  rw [unary]
  infer_instance

instance : Finishes (State.Room n) (grouped inner) := by
  rw [grouped]
  infer_instance

instance : Finishes (State.Room n) (alternative limit inner) :=
  Finishes.then (R := State.Ahead) inferInstance fun next => by split <;> infer_instance

instance (token : Token) : Finishes (State.Room n) (conditional limit inner token) := by
  rw [conditional]
  infer_instance

instance : Finishes (State.Room n) (property inner) := by
  rw [property]
  infer_instance

instance : Finishes (State.Room n) (commaProperty inner) := by
  rw [commaProperty]
  infer_instance

instance : Finishes (State.Room n) (moreProperties (n + 1) inner) := by
  refine (finishes_collect (P := State.Room n) (fun s => s.tokens.length) inferInstance ?_
    (n + 1)).mono fun s room => ⟨room, room.length_le⟩
  intro s a t room h
  rw [commaProperty, peek_bind] at h
  by_cases comma : s.peek.kind = .comma
  · rw [if_pos comma, advance_bind] at h
    exact round_smaller room (by simp [comma]) rfl (Keeps.ok h)
  · rw [if_neg comma] at h
    cases h

instance : Finishes (State.Room n) (properties (n + 1) inner) := by
  rw [properties]
  infer_instance

instance (token : Token) : Finishes (State.Room n) (object (n + 1) inner token) := by
  rw [object]
  infer_instance

instance : Finishes (State.Room n) (operand limit (n + 1) inner) :=
  Finishes.then (R := State.Ahead) inferInstance fun token => by
    split
    all_goals try split
    all_goals infer_instance

instance : Finishes (State.Room n) (arguments (n + 1) inner) := by
  rw [arguments]
  infer_instance

instance (token : Token) (left : Expression) :
    Finishes (State.Room n) (assignment inner token left) := by
  unfold assignment
  split <;> infer_instance

instance (left : Expression) : Finishes (State.Room n) (extend (n + 1) inner left) :=
  Finishes.then (R := State.Ahead) inferInstance fun token => by
    split
    · infer_instance
    · split <;> infer_instance

/-- A token that binds is not the end of input. -/
theorem ne_endOfInput_of_lt {power : BindingPower} {kind : Token.Kind}
    (binds : power < .ofKind kind) : kind ≠ .endOfInput := by
  rintro rfl
  exact absurd binds (Nat.not_lt_zero _)

/-- Every operator folded uses its own token up. -/
theorem finishes_operators (power : BindingPower) (k : Nat) : ∀ left, Finishes
    (fun s => s.Room n ∧ s.tokens.length < k) (operators limit (n + 1) inner power k left) := by
  induction k with
  | zero => exact fun _ => ⟨fun s hs => absurd hs.2 (Nat.not_lt_zero _)⟩
  | succ k ih =>
    intro left
    constructor
    intro s hs t h
    rw [operators, peek_bind] at h
    by_cases binds : power < .ofKind s.peek.kind
    · rw [if_pos binds] at h
      rcases bind_eq_error_iff.1 h with h | ⟨_, u, h, h'⟩
      · exact Finishes.ne_exhausted (P := State.Room n) s hs.1 t h
      · obtain ⟨-, rfl⟩ := enter_eq_ok h
        rw [advance_bind] at h'
        rcases bind_eq_error_iff.1 h' with h' | ⟨wider, v, h', h''⟩
        · have within : State.Within n { s with depth := s.depth + 1 }.advance := hs.1.advance
          exact Finishes.ne_exhausted _ within t h'
        -- the operator's own token is used up before its right operand is read
        · obtain ⟨room, less⟩ := round_smaller hs.1 (ne_endOfInput_of_lt binds) rfl
            (IsTrans.trans _ _ _ (s.advance.ahead_of_depth _) (Keeps.ok h'))
          exact (ih wider).ne_exhausted v ⟨room, by have := hs.2; omega⟩ t h''
    · rw [if_neg binds] at h
      cases h

instance (power : BindingPower) (left : Expression) :
    Finishes (State.Room n) (operators limit (n + 1) inner power (n + 1) left) :=
  (finishes_operators limit inner power (n + 1) left).mono fun _ room => ⟨room, room.length_le⟩

omit [inner.Onward] finishing in
/-- No expression starts at the end of input. -/
theorem operand_of_endOfInput {bound : Nat} {s : State} (h : s.current.kind = .endOfInput) :
    ∃ e, operand limit bound inner s = .error (.error e) s := by
  rw [operand]
  rw [current_bind]
  simp only [h]
  exact ⟨_, rfl⟩

instance (power : BindingPower) :
    Finishes (State.Within (n + 1)) (expression limit (n + 1) inner power) := by
  refine finishes_within_succ (by unfold expression; infer_instance) ?_
  intro s finish none_left t h
  have last : s.current = s.finish := by simp [State.current, none_left]
  rcases bind_eq_error_iff.1 h with h | ⟨_, u, h, h'⟩
  · exact Finishes.ne_exhausted (P := fun _ => True) s trivial t h
  · obtain ⟨-, rfl⟩ := enter_eq_ok h
    -- at the end of input the operand fails before anything is nested further
    have ended : { s with depth := s.depth + 1 }.current.kind = .endOfInput := by
      show s.current.kind = .endOfInput
      rw [last, finish]
    obtain ⟨e, failed⟩ := operand_of_endOfInput limit inner ended
    rw [ensuring] at h'
    rw [bind_of_error failed] at h'
    cases h'

instance (token : Token) :
    Finishes (State.Within (n + 1)) (conditional limit inner token) := by
  refine finishes_within_succ inferInstance ?_
  intro s finish none_left t h
  have last : s.peek = s.finish := by simp [State.peek, none_left]
  rcases bind_eq_error_iff.1 h with h | ⟨_, u, h, -⟩
  · exact Finishes.ne_exhausted (P := fun _ => True) s trivial t h
  · have opened := (expect_eq_ok h).1
    rw [last, finish] at opened
    cases opened

instance : Finishes (State.Room n) (declaration inner) := by
  rw [declaration]
  infer_instance

instance : Finishes (State.Room n) (resultValue inner) :=
  Finishes.then (R := State.Ahead) inferInstance fun next => by split <;> infer_instance

instance : Finishes (State.Room n) (result inner) := by
  rw [result]
  infer_instance

instance : Finishes (State.Room n) (function (n + 1) inner) := by
  rw [function]
  infer_instance

instance : Finishes (State.Within n) (statement (n + 1) inner) :=
  Finishes.then (R := State.Ahead) inferInstance fun token => by split <;> infer_instance

instance : Finishes (State.Within n) (item (n + 1) inner) := by
  rw [item]
  infer_instance

omit [inner.Onward] finishing in
/-- A statement uses at least one token up, recovered from or not. -/
theorem item_smaller {bound : Nat} [inner.Onward] {s t : State} {found : List Statement}
    (left : s.tokens ≠ []) (h : item bound inner s = .ok found t) :
    t.tokens.length < s.tokens.length := by
  obtain ⟨read, u, first, rest⟩ := bind_eq_ok_iff.1 h
  rw [advance_bind] at rest
  cases rest
  have shorter := (Keeps.ok (R := State.Ahead) first).length_tokens_le
  have some_left := List.length_pos_iff.2 left
  simp only [State.tokens_advance, State.ahead, List.length_tail]
  omega

omit finishing in
/-- A repetition of statements ends, as a round that goes on has read a statement before the end of
input. -/
theorem finishes_items {round : Parser (Option (List Statement))}
    (finishes : Finishes (State.Within n) round)
    (reads : ∀ s found t, round s = .ok (some found) t →
      s.current.kind ≠ .endOfInput ∧ item (n + 1) inner s = .ok found t) :
    Finishes (State.Within n) (collect round (n + 1)) := by
  refine (finishes_collect (P := State.Within n) (fun s => s.tokens.length) finishes ?_
    (n + 1)).mono fun s within => ⟨within, Nat.lt_succ_of_lt within.2⟩
  intro s found t within h
  obtain ⟨before, read⟩ := reads s found t h
  have left : s.tokens ≠ [] := by
    rw [State.tokens_eq_cons within.1 before]
    exact List.cons_ne_nil _ _
  exact ⟨Closed.closed s t (Keeps.ok (R := State.Ahead) read) within, item_smaller inner left read⟩

instance (token : Token) :
    Finishes (State.Within n) (collect (blockItem (n + 1) inner token) (n + 1)) := by
  refine finishes_items inner (Finishes.then (R := State.Ahead) inferInstance fun here => by
    split <;> infer_instance) ?_
  intro s found t h
  exact (blockItem_eq_some h).2

instance : Finishes (State.Within (n + 1)) (block (n + 1) inner) := by
  refine finishes_within_succ (by unfold block; infer_instance) ?_
  intro s finish none_left t h
  -- the brace is the last token, so the repetition stops in its first round
  have ended : s.advance.current.kind = .endOfInput := by
    have last : s.advance.current = s.finish := by
      simp [State.advance, State.current, none_left]
    rw [last, finish]
  rw [block, current_bind, advance_bind] at h
  rcases bind_eq_error_iff.1 h with h | ⟨_, _, _, h⟩
  · rw [collect, bind_of_error (blockItem_of_endOfInput _ ended)] at h
    cases h
  · cases h

instance : (inner.next limit (n + 1)).Finishing (n + 1) where
  expression power := inferInstanceAs (Finishes _ (expression limit (n + 1) inner power))
  block := inferInstanceAs (Finishes _ (block (n + 1) inner))
  conditional token := inferInstanceAs (Finishes _ (conditional limit inner token))

end Productions

/-- The productions never exhaust their bound where fewer tokens are left. -/
instance finishes_upTo (limit n : Nat) : (Productions.upTo limit n).Finishing n := by
  induction n with
  | zero =>
    -- no state has fewer than no tokens
    have nowhere {α : Type} (p : Parser α) : Finishes (State.Within 0) p :=
      ⟨fun s within => absurd within.2 (Nat.not_lt_zero _)⟩
    exact ⟨fun _ => nowhere _, nowhere _, fun _ => nowhere _⟩
  | succ n ih => exact inferInstanceAs (((Productions.upTo limit n).next limit (n + 1)).Finishing _)

/-- A statement is recovered from, so reading one never fails. -/
theorem item_ne_error {bound : Nat} {inner : Productions} {s t : State} {e : SyntaxError} :
    item bound inner s ≠ .error (.error e) t := by
  intro h
  rcases bind_eq_error_iff.1 h with h | ⟨_, _, _, h⟩
  · rw [recovering] at h
    cases run : statement bound inner s with
    | ok found u =>
      rw [run] at h
      cases h
    | error stop u =>
      rw [run] at h
      cases stop <;> cases h
  · cases h

/-- Reading a program never fails as a whole. -/
theorem program_ne_error {limit : Nat} {s t : State} {e : SyntaxError} :
    program limit s ≠ .error (.error e) t := by
  have rounds (bound : Nat) (inner : Productions) (n : Nat) : ∀ s : State,
      collect (programItem bound inner) n s ≠ .error (.error e) t := by
    induction n with
    | zero =>
      intro s h
      cases h
    | succ n ih =>
      intro s h
      rcases bind_eq_error_iff.1 h with h | ⟨found, u, -, h⟩
      · by_cases ended : s.current.kind = .endOfInput
        · rw [programItem_of_endOfInput ended] at h
          cases h
        · rw [programItem_of_ne ended, map_eq_bind] at h
          rcases bind_eq_error_iff.1 h with h | ⟨_, _, -, h⟩
          · exact item_ne_error h
          · cases h
      · cases found with
        | none => cases h
        | some found =>
          rcases bind_eq_error_iff.1 h with h | ⟨_, _, -, h⟩
          · exact ih u h
          · cases h
  exact rounds _ _ _ s

/-- Reading a program never exhausts its bound. -/
theorem finishes_program (limit : Nat) {s : State} (finish : s.finish.kind = .endOfInput)
    (t : State) : program limit s ≠ .error .exhausted t := by
  have rounds (n : Nat) : Finishes (State.Within n)
      (collect (programItem (n + 1) (Productions.upTo limit n)) (n + 1)) := by
    refine finishes_items (Productions.upTo limit n)
      (Finishes.then (R := State.Ahead) inferInstance fun here => by split <;> infer_instance) ?_
    intro s found t h
    exact programItem_eq_some h
  exact (rounds (s.tokens.length + 1)).ne_exhausted s ⟨finish, Nat.lt_succ_self _⟩ t

/-- Every run of a program yields one. -/
theorem program_eq_ok (limit : Nat) {s : State} (finish : s.finish.kind = .endOfInput) :
    ∃ p t, program limit s = .ok p t := by
  cases run : program limit s with
  | ok p t => exact ⟨p, t, rfl⟩
  | error stop t =>
    cases stop with
    | error e => exact absurd run program_ne_error
    | exhausted => exact absurd run (finishes_program limit finish t)

/-- A program is read up to the end of input. -/
theorem current_of_collect {bound : Nat} {inner : Productions} (n : Nat) :
    ∀ {s t : State} {found : Program}, collect (programItem bound inner) n s = .ok found t →
      t.current.kind = .endOfInput := by
  induction n with
  | zero =>
    intro s t found run
    cases run
  | succ n ih =>
    intro s t found run
    obtain ⟨round, u, first, rest⟩ := bind_eq_ok_iff.1 run
    cases round with
    | none =>
      cases rest
      obtain ⟨rfl, ended⟩ := programItem_eq_none first
      exact ended
    | some here =>
      obtain ⟨more, v, again, last⟩ := bind_eq_ok_iff.1 rest
      cases last
      exact ih again

end Guion.Parser
