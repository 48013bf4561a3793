import Guion.Proofs.Parser.Balance
import Guion.Proofs.Program.Places

/-!
# Parsing at another place

A parser looks at the kinds and texts of tokens only.  So from the same tokens at other places,
after other errors and with larger bounds it does the same, and what it yields stands at the other
places (`Carries`).  The bounds on recursion and on nesting may be larger as long as the first run
does not reach them: it is excused where it does.

A parser sees the current token and the next one.  So more tokens may follow in the other run as
long as the first one leaves two of its own.

There is one lemma for each production, given that the productions one level further in carry over.
-/

set_option autoImplicit false

namespace Guion.Parser

open Bounded Movable

variable {α β : Type} [Movable α] [Movable β]

/-- From one run of a parser to another. -/
structure Transport where
  /-- Where the tokens stand in the other run. -/
  place : Position → Position
  /-- The errors recorded before the other run. -/
  earlier : Array SyntaxError
  /-- The errors after which the other run need not be the same. -/
  excuse : SyntaxError → Prop
  /-- The tokens that follow in the other run, up to its end of input, if any do. -/
  sequel : Option Scanned

namespace Transport

variable (T : Transport)

/-- The state of the other run. -/
def state (s : State) : State :=
  ⟨s.tokens.map (Token.move T.place) ++ T.sequel.elim [] Scanned.tokens,
    T.sequel.elim (s.finish.move T.place) Scanned.finish, s.depth,
    T.earlier ++ s.errors.map (SyntaxError.move T.place)⟩

/-- The same tokens at other places, after other errors. -/
def moving (place : Position → Position) (earlier : Array SyntaxError) : Transport :=
  ⟨place, earlier, fun _ => False, none⟩

theorem state_moving (place : Position → Position) (earlier : Array SyntaxError) (s : State) :
    (moving place earlier).state s = ⟨s.tokens.map (Token.move place), s.finish.move place, s.depth,
      earlier ++ s.errors.map (SyntaxError.move place)⟩ := by
  rw [state, moving, Option.elim_none, List.append_nil, Option.elim_none]

/-- The outcome of the other run. -/
def outcome : EStateM.Result (Stop SyntaxError) State α → EStateM.Result (Stop SyntaxError) State α
  | .ok a t => .ok (move T.place a) (T.state t)
  | .error (.error e) t => .error (.error (e.move T.place)) (T.state t)
  | .error .exhausted t => .error .exhausted (T.state t)

/-- An excused error was recorded, or what follows in the other run is in sight. -/
def Marked (s : State) : Prop :=
  (∃ e ∈ s.errors.toList, T.excuse e) ∨ T.sequel ≠ none ∧ s.ahead = []

/-- The run reached a bound, or an excused error. -/
def Excused : EStateM.Result (Stop SyntaxError) State α → Prop
  | .ok _ t => T.Marked t
  | .error (.error e) t => T.excuse e ∨ T.Marked t
  | .error .exhausted _ => True

/-- Unless it is excused, a run of `p` is one of `p'` at the other place. -/
def Carries (p p' : Parser α) : Prop :=
  ∀ s, ¬ T.Excused (p s) → p' (T.state s) = T.outcome (p s)

theorem Marked.onward {T : Transport} {s t : State} (h : T.Marked s) (ahead : s.Ahead t) :
    T.Marked t := by
  rcases h with ⟨e, member, excused⟩ | ⟨more, last⟩
  · exact .inl ⟨e, ahead.errors.subset member, excused⟩
  · refine .inr ⟨more, List.eq_nil_of_length_eq_zero (Nat.le_zero.1 ?_)⟩
    rw [← List.length_nil, ← last]
    exact ahead.length_ahead_le

omit [Movable α] in
/-- What goes on after an excused error is excused. -/
theorem Marked.excused {T : Transport} {p : Parser α} [Onward p] {s : State} (h : T.Marked s) :
    T.Excused (p s) := by
  cases run : p s with
  | ok a t => exact h.onward (Keeps.ok run)
  | error stop t =>
    cases stop with
    | error e => exact .inr (h.onward (Keeps.error run))
    | exhausted => trivial

variable {T}

/-- The current token is the same, unless it is one of those that follow. -/
theorem current_state {s : State} (own : T.sequel = none ∨ s.tokens ≠ []) :
    (T.state s).current = s.current.move T.place := by
  rw [State.current, State.current, state]
  cases left : s.tokens with
  | nil =>
    rcases own with none | some_left
    · rw [none]
      rfl
    · exact absurd left some_left
  | cons t ts => rfl

theorem advance_state {s : State} (own : T.sequel = none ∨ s.tokens ≠ []) :
    (T.state s).advance = T.state s.advance := by
  simp only [State.advance, state]
  cases left : s.tokens with
  | nil =>
    rcases own with none | some_left
    · rw [none]
      rfl
    · exact absurd left some_left
  | cons t ts => rfl

theorem own_of_ahead {s : State} (own : T.sequel = none ∨ s.ahead ≠ []) :
    T.sequel = none ∨ s.tokens ≠ [] :=
  own.imp_right fun ahead left => ahead (by rw [State.ahead, left, List.tail_nil])

theorem peek_state {s : State} (own : T.sequel = none ∨ s.ahead ≠ []) :
    (T.state s).peek = s.peek.move T.place := by
  have next : (T.state s).peek = (T.state s).advance.current := rfl
  rw [next, advance_state (own_of_ahead own), current_state own]
  rfl

/-- Unless the state is marked, two tokens are left, or none follows them. -/
theorem own_of_not_marked {s : State} (clear : ¬ T.Marked s) :
    T.sequel = none ∨ s.ahead ≠ [] := by
  by_contra sight
  obtain ⟨more, last⟩ := not_or.1 sight
  exact clear (.inr ⟨more, not_not.1 last⟩)

/-! ## Steps -/

section Steps

variable {p p' : Parser α}

theorem Carries.bind {f f' : α → Parser β} [∀ a, Onward (f a)] (first : T.Carries p p')
    (rest : ∀ a, T.Carries (f a) (f' (move T.place a))) : T.Carries (p >>= f) (p' >>= f') := by
  intro s unexcused
  cases run : p s with
  | ok a t =>
    rw [bind_of_ok run] at unexcused ⊢
    -- an excused error in the first part would excuse the rest
    have clear : ¬ T.Excused (p s) := by
      rw [run]
      exact fun marked => unexcused (Marked.excused marked)
    have moved := first s clear
    rw [run] at moved
    rw [bind_of_ok moved]
    exact rest a t unexcused
  | error stop t =>
    rw [bind_of_error run] at unexcused ⊢
    have clear : ¬ T.Excused (p s) := by
      rw [run]
      cases stop <;> exact unexcused
    have moved := first s clear
    rw [run] at moved
    cases stop with
    | error e => exact bind_of_error moved
    | exhausted => exact absurd trivial unexcused

theorem carries_pure (a : α) : T.Carries (pure a) (pure (move T.place a)) := fun _ _ => rfl

theorem carries_exhausted : T.Carries exhausted p' := fun _ unexcused => absurd trivial unexcused

theorem carries_failAt (pos : Position) (fault : SyntaxError.Fault) :
    T.Carries (failAt pos fault : Parser α) (failAt (T.place pos) fault) := fun _ _ => rfl

theorem Carries.ite {q q' : Parser α} {c : Prop} [Decidable c] (yes : T.Carries p p')
    (no : T.Carries q q') : T.Carries (if c then p else q) (if c then p' else q') := by
  split
  · exact yes
  · exact no

theorem Carries.map {f : α → β} (h : T.Carries p p')
    (moved : ∀ a, move T.place (f a) = f (move T.place a)) : T.Carries (f <$> p) (f <$> p') := by
  rw [map_eq_bind, map_eq_bind]
  refine h.bind fun a => ?_
  rw [← moved]
  exact carries_pure _

theorem carries_current_bind {f f' : Token → Parser α}
    [h : Onward (current >>= f)] (rest : ∀ t, T.Carries (f t) (f' (t.move T.place))) :
    T.Carries (current >>= f) (current >>= f') := by
  intro s unexcused
  have own := own_of_not_marked fun marked => unexcused marked.excused
  rw [current_bind, current_state (own_of_ahead own)]
  exact rest s.current s unexcused

theorem carries_peek_bind {f f' : Token → Parser α}
    [h : Onward (peek >>= f)] (rest : ∀ t, T.Carries (f t) (f' (t.move T.place))) :
    T.Carries (peek >>= f) (peek >>= f') := by
  intro s unexcused
  have own := own_of_not_marked fun marked => unexcused marked.excused
  rw [peek_bind, peek_state own]
  exact rest s.peek s unexcused

theorem carries_advance : T.Carries advance advance := by
  intro s unexcused
  have own := own_of_not_marked fun marked => unexcused (marked.excused (p := advance))
  show EStateM.Result.ok () (T.state s).advance = .ok () (T.state s.advance)
  rw [advance_state (own_of_ahead own)]

theorem carries_failHere (fault : SyntaxError.Fault) :
    T.Carries (failHere fault : Parser α) (failHere fault) :=
  carries_current_bind fun _ => carries_failAt _ _

theorem carries_expect (kind : Token.Kind) : T.Carries (expect kind) (expect kind) :=
  carries_peek_bind fun _ => carries_advance.ite (carries_failAt _ _)

theorem carries_expectIdentifier : T.Carries expectIdentifier expectIdentifier :=
  (carries_expect .identifier).bind fun _ => carries_current_bind fun _ => carries_pure _

theorem carries_skipSemicolon : T.Carries skipSemicolon skipSemicolon :=
  carries_peek_bind fun _ => carries_advance.ite (carries_pure _)

/-- The other run has the same limit on nesting, or a larger one and an excuse for reaching the
first. -/
def Larger (T : Transport) (limit limit' : Nat) : Prop :=
  limit = limit' ∨ limit ≤ limit' ∧ ∀ pos, T.excuse ⟨pos, .nestingTooDeep limit⟩

variable {limit limit' : Nat}

theorem carries_enter (larger : T.Larger limit limit') :
    T.Carries (enter limit) (enter limit') := by
  intro s unexcused
  have le : limit ≤ limit' := by
    rcases larger with rfl | ⟨le, -⟩
    · exact Nat.le_refl _
    · exact le
  rcases enter_cases limit s with ⟨room, entered⟩ | ⟨full, refused⟩
  · rw [entered]
    exact enter_of_lt (s := T.state s) (Nat.lt_of_lt_of_le room le)
  · rw [refused] at unexcused ⊢
    rcases larger with rfl | ⟨-, excuse⟩
    · rcases enter_cases limit (T.state s) with ⟨room, -⟩ | ⟨-, refused⟩
      · exact absurd room (Nat.not_lt.2 full)
      · have own := own_of_not_marked fun marked => unexcused (.inr marked)
        rw [refused, current_state (own_of_ahead own)]
        rfl
    · exact absurd (.inl (excuse _)) unexcused

/-- What is done to the state after a run, however it ends. -/
theorem Carries.ensuring (h : T.Carries p p') (after : State → State) {after' : State → State}
    (same : ∀ t, after' (T.state t) = T.state (after t)) (kept : ∀ t : State, t.Ahead (after t))
    (s : State) (unexcused : ¬ T.Excused (ensuring after p s)) :
    ensuring after' p' (T.state s) = T.outcome (ensuring after p s) := by
  rw [Bounded.ensuring, Bounded.ensuring] at *
  cases run : p s with
  | ok a t =>
    rw [run] at unexcused
    have moved := h s (by rw [run]; exact fun marked => unexcused (marked.onward (kept t)))
    rw [moved, run]
    simp only [outcome, same]
  | error stop t =>
    rw [run] at unexcused
    cases stop with
    | error e =>
      have moved := h s (by
        rw [run]
        exact fun excused => unexcused (excused.imp_right (Marked.onward · (kept t))))
      rw [moved, run]
      simp only [outcome, same]
    | exhausted => exact absurd trivial unexcused

theorem Carries.nested [Onward p] (larger : T.Larger limit limit') (h : T.Carries p p') :
    T.Carries (nested limit p) (nested limit' p') := by
  have := onward_ensuring (p := p) State.leave fun t => t.ahead_of_depth _
  exact (carries_enter larger).bind fun _ =>
    h.ensuring State.leave (fun _ => rfl) fun t => t.ahead_of_depth _

theorem Carries.keepingDepth (h : T.Carries p p') :
    T.Carries (keepingDepth p) (keepingDepth p') :=
  fun s => h.ensuring (fun t => { t with depth := s.depth }) (fun _ => rfl)
    (fun t => t.ahead_of_depth _) s

/-- Parsing resumes at the same token, wherever the tokens stand. -/
theorem resume_map (g : Position → Position) (tokens : List Token) : ∀ opened,
    resume opened (tokens.map (Token.move g)) = (resume opened tokens).map (Token.move g) := by
  have closes (ts : List Token) : atBlockEnd (ts.map (Token.move g)) = atBlockEnd ts := by
    cases ts <;> rfl
  induction tokens with
  | nil => exact fun _ => rfl
  | cons t rest ih =>
    intro opened
    simp only [List.map_cons, resume, closes, ih, Token.move]
    split_ifs <;> rfl

/-- What follows does not change where parsing resumes, unless it is in sight there. -/
theorem resume_append (more tokens : List Token) : ∀ opened, (resume opened tokens).tail ≠ [] →
    resume opened (tokens ++ more) = resume opened tokens ++ more := by
  have ends {ts : List Token} (some_left : ts ≠ []) : atBlockEnd (ts ++ more) = atBlockEnd ts := by
    cases ts with
    | nil => exact absurd rfl some_left
    | cons t ts => rfl
  induction tokens with
  | nil => exact fun _ none => absurd rfl none
  | cons t rest ih =>
    intro opened
    have here (after : Nat) :
        (if after = 0 ∧ (t.kind = .semicolon ∨ atBlockEnd rest) then t :: rest
          else resume after rest).tail ≠ [] →
        (if after = 0 ∧ (t.kind = .semicolon ∨ atBlockEnd (rest ++ more)) then t :: (rest ++ more)
          else resume after (rest ++ more)) =
        (if after = 0 ∧ (t.kind = .semicolon ∨ atBlockEnd rest) then t :: rest
          else resume after rest) ++ more := by
      split
      · rename_i stop
        intro (past : rest ≠ [])
        rw [ends past, if_pos stop]
        rfl
      · rename_i further
        intro past
        have some_left : rest ≠ [] := by
          rintro rfl
          exact past rfl
        rw [ends some_left, if_neg further]
        exact ih after past
    exact here _

theorem recover_state {s : State} (e : SyntaxError)
    (own : T.sequel = none ∨ (s.recover e).ahead ≠ []) :
    (T.state s).recover (e.move T.place) = T.state (s.recover e) := by
  have resumed : resume 0 (s.tokens.map (Token.move T.place) ++ T.sequel.elim [] Scanned.tokens) =
      (resume 0 s.tokens).map (Token.move T.place) ++ T.sequel.elim [] Scanned.tokens := by
    rcases own with none | past
    · rw [none]
      simp only [Option.elim_none, List.append_nil, resume_map]
    · rw [resume_append, resume_map]
      rw [resume_map, ← List.map_tail]
      exact fun none => past (List.map_eq_nil_iff.1 none)
  simp only [State.recover, state, resumed, Array.map_push, Array.append_push]

/-- A malformed statement is skipped at the other place as well. -/
theorem Carries.recovering {p p' : Parser (Option α)} (h : T.Carries p p') :
    T.Carries (recovering p) (recovering p') := by
  intro s unexcused
  rw [Parser.recovering] at unexcused ⊢
  cases run : p s with
  | ok a t =>
    rw [run] at unexcused
    have moved := h s (by rw [run]; exact unexcused)
    rw [Parser.recovering, moved, run]
    rfl
  | error stop t =>
    rw [run] at unexcused
    cases stop with
    | error e =>
      have clear : ¬ T.Excused (p s) := by
        rw [run]
        -- the error is recorded, and other marks stay
        rintro (excused | marked)
        · exact unexcused (.inl ⟨e, by simp [State.recover], excused⟩)
        · exact unexcused (marked.onward (t.ahead_recover e))
      have moved := h s clear
      rw [Parser.recovering, moved, run]
      simp only [outcome, recover_state e (own_of_not_marked unexcused)]
      rfl
    | exhausted => exact absurd trivial unexcused

theorem Carries.collect {round round' : Parser (Option (List α))} [Onward round]
    (h : T.Carries round round') {n n' : Nat} (le : n ≤ n') :
    T.Carries (collect round n) (collect round' n') := by
  induction n generalizing n' with
  | zero => exact carries_exhausted
  | succ n ih =>
    obtain ⟨n', rfl⟩ : ∃ k, n' = k + 1 := ⟨n' - 1, by omega⟩
    have rounds := keeps_round State.Ahead round n
    refine h.bind fun found => ?_
    cases found with
    | none => exact carries_pure _
    | some found =>
      refine (ih (Nat.le_of_succ_le_succ le)).bind fun more => ?_
      have joined : move T.place (found ++ more) = move T.place found ++ move T.place more :=
        List.map_append
      rw [← joined]
      exact carries_pure _

end Steps

/-! ## Productions -/

/-- The productions one level further in carry over. -/
class Inner (T : Transport) (inner inner' : Productions) : Prop where
  expression : ∀ power, T.Carries (inner.expression power) (inner'.expression power)
  block : T.Carries inner.block inner'.block
  conditional : ∀ token, T.Carries (inner.conditional token)
    (inner'.conditional (Token.move T.place token))

section Productions

variable {limit limit' bound bound' : Nat} {inner inner' : Productions}

theorem Carries.commaItem {item item' : Parser α} [Onward item] (h : T.Carries item item') :
    T.Carries (commaItem item) (commaItem item') :=
  carries_peek_bind fun _ => Carries.ite
    (carries_advance.bind fun _ => h.bind fun _ => carries_pure _) (carries_pure _)

theorem Carries.commaSeparated {item item' : Parser α} [Onward item] (h : T.Carries item item')
    (le : bound ≤ bound') : T.Carries (commaSeparated bound item) (commaSeparated bound' item') :=
  h.commaItem.collect le

theorem carries_parameters (le : bound ≤ bound') :
    T.Carries (parameters bound) (parameters bound') :=
  carries_peek_bind fun _ => Carries.ite (carries_advance.bind fun _ => carries_pure _)
    (carries_expectIdentifier.bind fun _ =>
      (carries_expectIdentifier.commaSeparated le).bind fun _ =>
        (carries_expect .rightParen).bind fun _ => carries_pure _)

variable [inner.Onward] (deeper : T.Inner inner inner')

include deeper

theorem carries_nextExpression (power : BindingPower) :
    T.Carries (nextExpression inner power) (nextExpression inner' power) :=
  carries_advance.bind fun _ => deeper.expression power

theorem carries_unary (token : Token) (op : UnaryOp) :
    T.Carries (unary inner token op) (unary inner' (token.move T.place) op) :=
  (carries_nextExpression deeper .unary).bind fun _ => carries_pure _

theorem carries_grouped : T.Carries (grouped inner) (grouped inner') :=
  (carries_nextExpression deeper .lowest).bind fun _ =>
    (carries_expect .rightParen).bind fun _ => carries_pure _

theorem carries_assignment (token : Token) (left : Expression) :
    T.Carries (assignment inner token left)
      (assignment inner' (token.move T.place) (left.move T.place)) := by
  cases left with
  | identifier target =>
    exact (carries_nextExpression deeper .lowest).bind fun _ => carries_pure _
  | _ => exact carries_failHere _

theorem carries_functionRest (le : bound ≤ bound') :
    T.Carries (functionRest bound inner) (functionRest bound' inner') :=
  (carries_expect .leftParen).bind fun _ => (carries_parameters le).bind fun _ =>
    (carries_expect .leftCurly).bind fun _ => deeper.block.bind fun _ => carries_pure _

theorem carries_alternative (larger : T.Larger limit limit') :
    T.Carries (alternative limit inner) (alternative limit' inner') := by
  refine carries_peek_bind (h := (inferInstance : Onward (alternative limit inner))) fun next => ?_
  obtain ⟨kind, text, pos⟩ := next
  cases kind with
  | sino =>
    exact carries_advance.bind fun _ => (carries_expect .leftCurly).bind fun _ =>
      deeper.block.bind fun _ => carries_pure _
  | sinosi =>
    exact carries_advance.bind fun _ => carries_current_bind fun token =>
      ((deeper.conditional token).nested larger).bind fun _ => carries_pure _
  | _ => exact carries_pure _

set_option synthInstance.maxSize 400 in
theorem carries_conditional (larger : T.Larger limit limit') (token : Token) :
    T.Carries (conditional limit inner token) (conditional limit' inner' (token.move T.place)) := by
  refine (carries_expect .leftParen).bind fun _ => (carries_nextExpression deeper .lowest).bind
    fun c => (carries_expect .rightParen).bind fun _ => (carries_expect .leftCurly).bind fun _ =>
    deeper.block.bind fun b => (carries_alternative deeper larger).bind fun other => ?_
  have moved : move T.place (Expression.conditional token c b other) =
      .conditional (token.move T.place) (c.move T.place) (b.move T.place) (move T.place other) := by
    rw [← Block.moveOption_eq]
    rfl
  exact moved ▸ carries_pure _

theorem carries_property : T.Carries (property inner) (property inner') :=
  carries_expectIdentifier.bind fun _ => carries_peek_bind fun _ => Carries.ite
    (carries_advance.bind fun _ => (carries_nextExpression deeper .lowest).bind fun _ =>
      carries_pure _)
    (carries_pure _)

theorem carries_commaProperty : T.Carries (commaProperty inner) (commaProperty inner') :=
  carries_peek_bind fun _ => Carries.ite
    (carries_advance.bind fun _ => carries_peek_bind fun _ => Carries.ite (carries_pure _)
      ((carries_property deeper).bind fun _ => carries_pure _))
    (carries_pure _)

theorem carries_properties (le : bound ≤ bound') :
    T.Carries (properties bound inner) (properties bound' inner') :=
  carries_peek_bind fun _ => Carries.ite (carries_pure _)
    ((carries_property deeper).bind fun _ =>
      ((carries_commaProperty deeper).collect le).bind fun _ => carries_pure _)

theorem carries_object (le : bound ≤ bound') (token : Token) :
    T.Carries (object bound inner token) (object bound' inner' (token.move T.place)) := by
  refine (carries_properties deeper le).bind fun found =>
    (carries_expect .rightCurly).bind fun _ => ?_
  have moved : move T.place (Expression.object token found) =
      .object (token.move T.place) (move T.place found) := by
    rw [← Property.moveAll_eq]
    rfl
  exact moved ▸ carries_pure _

theorem carries_operand (larger : T.Larger limit limit') (le : bound ≤ bound') :
    T.Carries (operand limit bound inner) (operand limit' bound' inner') := by
  refine carries_current_bind (h := (inferInstance : Onward (operand limit bound inner)))
    fun token => ?_
  obtain ⟨kind, text, pos⟩ := token
  cases kind with
  | identifier | verdadero | falso | string => exact carries_pure _
  | integer =>
    dsimp only [Token.move]
    cases Number.readInteger? text with
    | some value => exact carries_pure _
    | none => exact carries_failHere _
  | float =>
    dsimp only [Token.move]
    cases Number.read? text with
    | some value => exact carries_pure _
    | none => exact carries_failHere _
  | bang => exact carries_unary deeper _ .not
  | minus => exact carries_unary deeper _ .negate
  | leftParen => exact carries_grouped deeper
  | func => exact (carries_functionRest deeper le).bind fun _ => carries_pure _
  | si => exact carries_conditional deeper larger _
  | leftCurly => exact carries_object deeper le _
  | _ => exact carries_failHere _

theorem carries_arguments (le : bound ≤ bound') :
    T.Carries (arguments bound inner) (arguments bound' inner') :=
  carries_peek_bind fun _ => Carries.ite (carries_advance.bind fun _ => carries_pure _)
    ((carries_nextExpression deeper .lowest).bind fun _ =>
      ((carries_nextExpression deeper .lowest).commaSeparated le).bind fun _ =>
        (carries_expect .rightParen).bind fun _ => carries_pure _)

theorem carries_extend (le : bound ≤ bound') (left : Expression) :
    T.Carries (extend bound inner left) (extend bound' inner' (left.move T.place)) := by
  refine carries_current_bind (h := (inferInstance : Onward (extend bound inner left)))
    fun token => ?_
  obtain ⟨kind, text, pos⟩ := token
  cases kind with
  | assign => exact carries_assignment deeper _ left
  | leftParen =>
    refine (carries_arguments deeper le).bind fun values => ?_
    have moved : move T.place (Expression.call ⟨.leftParen, text, pos⟩ left values) =
        .call (Token.move T.place ⟨.leftParen, text, pos⟩) (left.move T.place)
          (move T.place values) := by
      rw [← Expression.moveAll_eq]
      rfl
    exact moved ▸ carries_pure _
  | dot => exact carries_expectIdentifier.bind fun _ => carries_pure _
  | leftBracket =>
    exact (carries_nextExpression deeper .lowest).bind fun _ =>
      (carries_expect .rightBracket).bind fun _ => carries_pure _
  | equal | notEqual | less | lessEqual | greater | greaterEqual | plus | minus | star | slash =>
    exact (carries_nextExpression deeper _).bind fun _ => carries_pure _
  | _ => exact carries_pure _

theorem carries_operators (larger : T.Larger limit limit') (le : bound ≤ bound')
    (power : BindingPower) {n n' : Nat} (rounds : n ≤ n') (left : Expression) :
    T.Carries (operators limit bound inner power n left)
      (operators limit' bound' inner' power n' (left.move T.place)) := by
  induction n generalizing n' left with
  | zero => exact carries_exhausted
  | succ n ih =>
    obtain ⟨n', rfl⟩ : ∃ k, n' = k + 1 := ⟨n' - 1, by omega⟩
    exact carries_peek_bind fun _ => Carries.ite
      ((carries_enter larger).bind fun _ => carries_advance.bind fun _ =>
        (carries_extend deeper le left).bind fun wider => ih (Nat.le_of_succ_le_succ rounds) wider)
      (carries_pure _)

theorem carries_expression (larger : T.Larger limit limit') (le : bound ≤ bound')
    (power : BindingPower) :
    T.Carries (expression limit bound inner power) (expression limit' bound' inner' power) :=
  Carries.nested larger ((carries_operand deeper larger le).bind fun left =>
    (carries_operators deeper larger le power le left).keepingDepth)

theorem carries_declaration : T.Carries (declaration inner) (declaration inner') := by
  refine carries_current_bind fun token => carries_expectIdentifier.bind fun name =>
    carries_peek_bind fun next => Carries.ite ?_ ?_
  · exact carries_advance.bind fun _ => (carries_nextExpression deeper .lowest).bind fun _ =>
      carries_skipSemicolon.bind fun _ => carries_pure _
  · exact carries_skipSemicolon.bind fun _ => Carries.ite (carries_failAt _ _) (carries_pure _)

theorem carries_resultValue : T.Carries (resultValue inner) (resultValue inner') := by
  refine carries_peek_bind (h := (inferInstance : Onward (resultValue inner))) fun next => ?_
  obtain ⟨kind, text, pos⟩ := next
  cases kind with
  | semicolon | rightCurly | endOfInput => exact carries_pure _
  | _ => exact (carries_nextExpression deeper .lowest).map fun _ => rfl

theorem carries_result : T.Carries (result inner) (result inner') := by
  refine carries_current_bind fun token => (carries_resultValue deeper).bind fun value =>
    carries_skipSemicolon.bind fun _ => ?_
  have moved : move T.place (Statement.result token value) =
      .result (token.move T.place) (move T.place value) := by
    rw [← Expression.moveOption_eq]
    rfl
  exact moved ▸ carries_pure _

theorem carries_function (le : bound ≤ bound') :
    T.Carries (function bound inner) (function bound' inner') :=
  carries_current_bind fun _ => carries_expectIdentifier.bind fun _ =>
    (carries_functionRest deeper le).bind fun _ => carries_skipSemicolon.bind fun _ =>
      carries_pure _

theorem carries_statement (le : bound ≤ bound') :
    T.Carries (statement bound inner) (statement bound' inner') := by
  have other (token : Token) : T.Carries
      (do if token.kind = .func ∧ (← peek).kind = .identifier then some <$> function bound inner
          else
            let value ← inner.expression .lowest
            skipSemicolon
            return some (.expression token value) : Parser (Option Statement))
      (do if token.kind = .func ∧ (← peek).kind = .identifier then some <$> function bound' inner'
          else
            let value ← inner'.expression .lowest
            skipSemicolon
            return some (.expression (token.move T.place) value)) := by
    refine carries_peek_bind fun next =>
      Carries.ite ((carries_function deeper le).map fun _ => rfl) ?_
    exact (deeper.expression .lowest).bind fun _ => carries_skipSemicolon.bind fun _ =>
      carries_pure _
  refine carries_current_bind (h := (inferInstance : Onward (statement bound inner)))
    fun token => ?_
  obtain ⟨kind, text, pos⟩ := token
  cases kind with
  | semicolon => exact carries_pure _
  | var | constant => exact (carries_declaration deeper).map fun _ => rfl
  | regresa => exact (carries_result deeper).map fun _ => rfl
  | _ => exact other _

theorem carries_item (le : bound ≤ bound') : T.Carries (item bound inner) (item bound' inner') := by
  refine (carries_statement deeper le).recovering.bind fun found => carries_advance.bind fun _ => ?_
  have moved : move T.place found.toList = (move T.place found).toList := by
    cases found <;> rfl
  exact moved ▸ carries_pure _

theorem carries_blockItem (le : bound ≤ bound') (token : Token) :
    T.Carries (blockItem bound inner token) (blockItem bound' inner' (token.move T.place)) := by
  refine carries_current_bind (h := (inferInstance : Onward (blockItem bound inner token)))
    fun here => ?_
  obtain ⟨kind, text, pos⟩ := here
  cases kind with
  | rightCurly => exact carries_pure _
  | endOfInput => exact carries_failAt _ _
  | _ => exact (carries_item deeper le).bind fun _ => carries_pure _

theorem carries_block (le : bound ≤ bound') :
    T.Carries (block bound inner) (block bound' inner') := by
  refine carries_current_bind fun token => carries_advance.bind fun _ =>
    ((carries_blockItem deeper le token).collect le).bind fun statements => ?_
  have moved : move T.place (Block.mk token statements) =
      .mk (token.move T.place) (move T.place statements) := by
    rw [← Statement.moveAll_eq]
    rfl
  exact moved ▸ carries_pure _

theorem carries_programItem (le : bound ≤ bound') :
    T.Carries (programItem bound inner) (programItem bound' inner') := by
  refine carries_current_bind (h := (inferInstance : Onward (programItem bound inner)))
    fun here => ?_
  obtain ⟨kind, text, pos⟩ := here
  cases kind with
  | endOfInput => exact carries_pure _
  | _ => exact (carries_item deeper le).bind fun _ => carries_pure _

end Productions

/-- Productions with a larger bound, and with a larger limit if that is excused, carry over. -/
theorem inner_upTo {limit limit' : Nat} (larger : T.Larger limit limit') {n n' : Nat}
    (le : n ≤ n') :
    T.Inner (Productions.upTo limit n) (Productions.upTo limit' n') := by
  induction n generalizing n' with
  | zero => exact ⟨fun _ => carries_exhausted, carries_exhausted, fun _ => carries_exhausted⟩
  | succ n ih =>
    obtain ⟨n', rfl⟩ : ∃ k, n' = k + 1 := ⟨n' - 1, by omega⟩
    have deeper := ih (Nat.le_of_succ_le_succ le)
    exact ⟨carries_expression deeper larger le, carries_block deeper le,
      carries_conditional deeper larger⟩

end Transport

end Guion.Parser
