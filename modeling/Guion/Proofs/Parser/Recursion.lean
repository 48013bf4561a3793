import Guion.Proofs.Parser.Finishing
import Guion.Proofs.Parser.Transport

/-!
# Parsing is a recursion on the tokens left

Reading a program ends for every text and every limit on nesting (`parsing_returns`).  Each round of
a loop that goes on uses tokens up, and expressions, blocks and conditionals go back into one
another only with fewer tokens left than they started with.

The bounds that the productions carry are there to make this recursion structural.  Without them
(`Productions.whole`) the productions satisfy the equations of a recursion on the number of tokens
left (`Productions.Recursive`): all that a production does at a state comes from what the
productions do at states with fewer tokens (`Productions.below`).
-/

set_option autoImplicit false

namespace Guion

instance : LawfulMovable Expression := ⟨Expression.move_id, Expression.move_move⟩

instance : LawfulMovable Block := ⟨Block.move_id, Block.move_move⟩

instance : LawfulMovable Statement := ⟨Statement.move_id, Statement.move_move⟩

namespace Parser

open Bounded

variable {α : Type} {limit bound n : Nat}

/-! ## Loops use tokens up -/

/-- Tokens were used up on the way from `s` to `t`, and the end of input is none of them. -/
def State.Uses (s t : State) : Prop :=
  ∃ used, used ≠ [] ∧ (∀ u ∈ used, u.kind ≠ .endOfInput) ∧ s.tokens = used ++ t.tokens

theorem State.Sane.uses {s t : State} (sane : s.Sane) (ahead : s.Ahead t)
    (fewer : t.tokens.length < s.tokens.length) : s.Uses t := by
  obtain ⟨used, same⟩ := ahead.tokens
  refine ⟨used, ?_, fun u member => ?_, same.symm⟩
  · rintro rfl
    rw [← same, List.nil_append] at fewer
    exact absurd fewer (Nat.lt_irrefl _)
  · exact (sane.lexed u (same ▸ List.mem_append_left _ member)).not_end

/-- Every round that goes on uses tokens up. -/
def Consuming (round : Parser (Option α)) : Prop :=
  ∀ s a t, s.Sane → round s = .ok (some a) t → s.Uses t

/-- What starts by moving to a token before the end of input uses that token up. -/
theorem State.Sane.uses_of_advance {s t : State} (sane : s.Sane)
    (next : s.peek.kind ≠ .endOfInput) (rest : s.advance.Ahead t) : s.Uses t :=
  sane.uses (IsTrans.trans _ _ _ s.ahead_advance rest)
    (State.length_tokens_lt rest (State.tokens_ne_nil sane.finish next))

/-- One round of the loop over operators: what the next operator makes of `left`, or nothing where
no operator binds strongly enough. -/
def operatorRound (limit bound : Nat) (inner : Productions) (power : BindingPower)
    (left : Expression) : Parser (Option Expression) := do
  if power < .ofKind (← peek).kind then
    enter limit
    advance
    return some (← extend bound inner left)
  else return none

/-- The loop over operators repeats its round until it yields nothing. -/
theorem operators_succ (inner : Productions) (power : BindingPower) (left : Expression) :
    operators limit bound inner power (n + 1) left = (do
      match ← operatorRound limit bound inner power left with
      | some wider => operators limit bound inner power n wider
      | none => return left : Parser Expression) := by
  rw [operators, operatorRound, bind_assoc]
  refine congrArg (peek >>= ·) (funext fun next => ?_)
  split <;> simp only [bind_assoc, pure_bind]

section Loops

variable (inner : Productions) [inner.Onward]

/-- A statement before the end of input uses tokens up, recovered from or not. -/
theorem State.Sane.uses_of_item {s t : State} {found : List Statement} (sane : s.Sane)
    (before : s.current.kind ≠ .endOfInput) (read : item bound inner s = .ok found t) :
    s.Uses t := by
  have left : s.tokens ≠ [] := by
    rw [State.tokens_eq_cons sane.finish before]
    exact List.cons_ne_nil _ _
  exact sane.uses (Keeps.ok read) (item_smaller inner left read)

theorem consuming_programItem : Consuming (programItem bound inner) := by
  intro s found t sane round
  obtain ⟨before, read⟩ := programItem_eq_some round
  exact sane.uses_of_item inner before read

theorem consuming_blockItem (token : Token) : Consuming (blockItem bound inner token) := by
  intro s found t sane round
  obtain ⟨-, before, read⟩ := blockItem_eq_some round
  exact sane.uses_of_item inner before read

omit [inner.Onward] in
/-- Each item after a comma uses the comma up. -/
theorem consuming_commaItem (item : Parser α) [Onward item] : Consuming (commaItem item) := by
  intro s found t sane round
  rw [commaItem, peek_bind] at round
  by_cases comma : s.peek.kind = .comma
  · rw [if_pos comma, advance_bind] at round
    exact sane.uses_of_advance (by simp [comma]) (Keeps.ok round)
  · rw [if_neg comma] at round
    cases round

/-- Each property after a comma uses the comma up. -/
theorem consuming_commaProperty : Consuming (commaProperty inner) := by
  intro s found t sane round
  rw [commaProperty, peek_bind] at round
  by_cases comma : s.peek.kind = .comma
  · rw [if_pos comma, advance_bind] at round
    exact sane.uses_of_advance (by simp [comma]) (Keeps.ok round)
  · rw [if_neg comma] at round
    cases round

/-- Each operator uses its own token up. -/
theorem consuming_operatorRound (power : BindingPower) (left : Expression) :
    Consuming (operatorRound limit bound inner power left) := by
  intro s wider t sane round
  rw [operatorRound, peek_bind] at round
  by_cases binds : power < .ofKind s.peek.kind
  · rw [if_pos binds] at round
    obtain ⟨_, u, entered, round⟩ := bind_eq_ok_iff.1 round
    obtain ⟨-, rfl⟩ := enter_eq_ok entered
    rw [advance_bind] at round
    -- the level entered does not matter to the tokens
    exact sane.uses_of_advance (ne_endOfInput_of_lt binds)
      (IsTrans.trans _ _ _ (s.advance.ahead_of_depth _) (Keeps.ok round))
  · rw [if_neg binds] at round
    cases round

end Loops

/-- Recovery stops at a token or goes on with those after it. -/
theorem resume_cons_cases (opened : Nat) (t : Token) (rest : List Token) :
    resume opened (t :: rest) = t :: rest ∨
      ∃ after, resume opened (t :: rest) = resume after rest := by
  simp only [resume]
  split_ifs with here
  · exact .inl rfl
  · exact .inr ⟨_, rfl⟩

/-! ## Productions without a bound -/

/-- The parser with as large a bound as the tokens left ask for. -/
def unbounded (p : Nat → Parser α) : Parser α := fun s => p (s.tokens.length + 1) s

/-- The parser where fewer than `n` tokens are left.  Elsewhere it stops without a result. -/
def below (n : Nat) (p : Parser α) : Parser α := fun s =>
  if s.tokens.length < n then p s else exhausted s

/-- The productions without a bound. -/
def Productions.whole (limit : Nat) : Productions where
  expression power := unbounded fun k => (Productions.upTo limit k).expression power
  block := unbounded fun k => (Productions.upTo limit k).block
  conditional token := unbounded fun k => (Productions.upTo limit k).conditional token

/-- The productions where fewer than `n` tokens are left. -/
def Productions.below (n : Nat) (inner : Productions) : Productions where
  expression power := Parser.below n (inner.expression power)
  block := Parser.below n inner.block
  conditional token := Parser.below n (inner.conditional token)

section Onward

instance (p : Nat → Parser α) [onward : ∀ k, Onward (p k)] : Onward (unbounded p) :=
  ⟨fun s => (onward (s.tokens.length + 1)).final_rel s⟩

instance (p : Parser α) [onward : Onward p] : Onward (below n p) := by
  constructor
  intro s
  unfold below
  split
  · exact onward.final_rel s
  · exact refl s

instance : (Productions.whole limit).Onward where
  expression power :=
    inferInstanceAs (Onward (unbounded fun k => (Productions.upTo limit k).expression power))
  block := inferInstanceAs (Onward (unbounded fun k => (Productions.upTo limit k).block))
  conditional token :=
    inferInstanceAs (Onward (unbounded fun k => (Productions.upTo limit k).conditional token))

instance (inner : Productions) [inner.Onward] : (inner.below n).Onward where
  expression power := inferInstanceAs (Onward (below n (inner.expression power)))
  block := inferInstanceAs (Onward (below n inner.block))
  conditional token := inferInstanceAs (Onward (below n (inner.conditional token)))

end Onward

section Bounds

variable {p : Nat → Parser α} (finishes : ∀ k, Finishes (State.Within k) (p k))

include finishes

/-- A bound that is large enough for the tokens left does not run out. -/
theorem unbounded_ne_exhausted {s : State} (finish : s.finish.kind = .endOfInput) (t : State) :
    unbounded p s ≠ .error .exhausted t :=
  (finishes _).ne_exhausted s ⟨finish, Nat.lt_succ_self _⟩ t

theorem finishes_below : Finishes (State.Within n) (below n (unbounded p)) := by
  constructor
  intro s within
  unfold below
  rw [if_pos within.2]
  exact unbounded_ne_exhausted finishes within.1

end Bounds

instance : ((Productions.whole limit).below n).Finishing n where
  expression power := finishes_below fun k => (finishes_upTo limit k).expression power
  block := finishes_below fun k => (finishes_upTo limit k).block
  conditional token := finishes_below fun k => (finishes_upTo limit k).conditional token

/-! ## The bound does not matter -/

/-- From a run to the same run, with the bounds excused. -/
def Transport.staying : Transport := .moving id #[]

variable [Movable α] [LawfulMovable α]

theorem Transport.state_staying (s : State) : Transport.staying.state s = s := by
  have tokens : s.tokens.map (Token.move id) = s.tokens := List.map_id _
  have errors : s.errors.map (SyntaxError.move id) = s.errors := Array.map_id _
  simp only [Transport.staying, Transport.state_moving, tokens, errors, Array.empty_append]
  rfl

theorem Transport.outcome_staying (r : EStateM.Result (Stop SyntaxError) State α) :
    Transport.staying.outcome r = r := by
  match r with
  | .ok a t =>
    rw [outcome, state_staying]
    exact congrArg (EStateM.Result.ok · t) (LawfulMovable.move_id a)
  | .error (.error e) t =>
    rw [outcome, state_staying]
    rfl
  | .error .exhausted t => rw [outcome, state_staying]

/-- A run that does not exhaust its bound is the run with any bound that it carries over to. -/
theorem Transport.Carries.eq {p p' : Parser α} (h : Transport.staying.Carries p p') {s : State}
    (finishes : ∀ t, p s ≠ .error .exhausted t) : p' s = p s := by
  have unexcused : ¬ Transport.staying.Excused (p s) := by
    cases run : p s with
    | ok a t =>
      rintro (⟨_, _, excused⟩ | ⟨sequel, -⟩)
      · exact excused
      · exact sequel rfl
    | error stop t =>
      cases stop with
      | error e =>
        rintro (excused | ⟨_, _, excused⟩ | ⟨sequel, -⟩)
        · exact excused
        · exact excused
        · exact sequel rfl
      | exhausted => exact absurd run (finishes t)
  have same := h s unexcused
  rwa [state_staying, outcome_staying] at same

/-- Where fewer than `n` tokens are left, it is enough to agree there. -/
theorem carries_below {p p' : Parser α} (same : ∀ s : State, s.tokens.length < n →
    ¬ Transport.staying.Excused (p s) → p' s = p s) : Transport.staying.Carries (below n p) p' := by
  intro s unexcused
  rw [Transport.state_staying, Transport.outcome_staying]
  unfold below at unexcused ⊢
  split at unexcused
  · rename_i fewer
    rw [if_pos fewer]
    exact same s fewer unexcused
  · exact absurd trivial unexcused

theorem carries_below_self (p : Parser α) : Transport.staying.Carries (below n p) (below n p) :=
  carries_below fun _ fewer _ => if_pos fewer

/-- A bound above the tokens left is as good as none. -/
theorem carries_of_unbounded {p : Nat → Parser α}
    (mono : ∀ k, k ≤ n → Transport.staying.Carries (p k) (p n)) :
    Transport.staying.Carries (below n (unbounded p)) (p n) := by
  refine carries_below fun s fewer unexcused => ?_
  have same := mono (s.tokens.length + 1) fewer s unexcused
  rwa [Transport.state_staying, Transport.outcome_staying] at same

theorem inner_upTo_of_whole (limit n : Nat) :
    Transport.staying.Inner ((Productions.whole limit).below n) (Productions.upTo limit n) where
  expression power := carries_of_unbounded
    (p := fun k => (Productions.upTo limit k).expression power)
    fun _ less => (Transport.inner_upTo (.inl rfl) less).expression power
  block := carries_of_unbounded (p := fun k => (Productions.upTo limit k).block)
    fun _ less => (Transport.inner_upTo (.inl rfl) less).block
  conditional token := carries_of_unbounded
    (p := fun k => (Productions.upTo limit k).conditional token)
    fun _ less => (Transport.inner_upTo (.inl rfl) less).conditional token

theorem inner_below_self (inner : Productions) (n : Nat) :
    Transport.staying.Inner (inner.below n) (inner.below n) where
  expression _ := carries_below_self _
  block := carries_below_self _
  conditional _ := carries_below_self _

theorem inner_of_below (inner : Productions) (n : Nat) :
    Transport.staying.Inner (inner.below n) inner where
  expression _ := carries_below fun _ _ _ => rfl
  block := carries_below fun _ _ _ => rfl
  conditional _ := carries_below fun _ _ _ => rfl

/-! ## The equations of the recursion -/

/-- Every run before an end of input ends with a result or a syntax error. -/
def Returns (p : Parser α) : Prop :=
  ∀ s t : State, s.finish.kind = .endOfInput → p s ≠ .error .exhausted t

/-- The productions are a recursion on the tokens left: each is its own body, in which the others
are used only with fewer tokens left than it starts with, and any bound above these is as good as
none. -/
structure Productions.Recursive (limit : Nat) (all : Productions) : Prop where
  returns : (∀ power, Returns (all.expression power)) ∧ Returns all.block ∧
    ∀ token, Returns (all.conditional token)
  expression : ∀ (power : BindingPower) (s : State) (bound : Nat), s.finish.kind = .endOfInput →
    s.tokens.length < bound → all.expression power s =
      Parser.expression limit bound (all.below s.tokens.length) power s
  block : ∀ (s : State) (bound : Nat), s.finish.kind = .endOfInput → s.tokens.length < bound →
    all.block s = Parser.block bound (all.below s.tokens.length) s
  conditional : ∀ (token : Token) (s : State), s.finish.kind = .endOfInput →
    all.conditional token s = Parser.conditional limit (all.below s.tokens.length) token s

omit [Movable α] [LawfulMovable α] in
theorem State.ne_exhausted {s : State} (finish : s.finish.kind = .endOfInput) (p : Parser α)
    [finishes : Finishes (State.Within (s.tokens.length + 1)) p] (t : State) :
    p s ≠ .error .exhausted t :=
  finishes.ne_exhausted s ⟨finish, Nat.lt_succ_self _⟩ t

theorem recursive_whole (limit : Nat) : (Productions.whole limit).Recursive limit where
  returns := by
    refine ⟨fun power s t finish => ?_, fun s t finish => ?_, fun token s t finish => ?_⟩
    · exact unbounded_ne_exhausted (fun k => (finishes_upTo limit k).expression power) finish t
    · exact unbounded_ne_exhausted (fun k => (finishes_upTo limit k).block) finish t
    · exact unbounded_ne_exhausted (fun k => (finishes_upTo limit k).conditional token) finish t
  expression power s bound finish enough := by
    have finishes := State.ne_exhausted finish (expression limit (s.tokens.length + 1)
      ((Productions.whole limit).below s.tokens.length) power)
    have own := Transport.carries_expression (inner_upTo_of_whole limit s.tokens.length)
      (.inl (rfl : limit = limit)) (Nat.le_refl (s.tokens.length + 1)) power
    have larger := Transport.carries_expression (inner_below_self (.whole limit) s.tokens.length)
      (.inl (rfl : limit = limit)) enough power
    exact (own.eq finishes).trans (larger.eq finishes).symm
  block s bound finish enough := by
    have finishes := State.ne_exhausted finish (block (s.tokens.length + 1)
      ((Productions.whole limit).below s.tokens.length))
    have own := Transport.carries_block (inner_upTo_of_whole limit s.tokens.length)
      (Nat.le_refl (s.tokens.length + 1))
    have larger := Transport.carries_block (inner_below_self (.whole limit) s.tokens.length) enough
    exact (own.eq finishes).trans (larger.eq finishes).symm
  conditional token s finish := by
    have finishes := State.ne_exhausted finish (conditional limit
      ((Productions.whole limit).below s.tokens.length) token)
    have own := Transport.carries_conditional (inner_upTo_of_whole limit s.tokens.length)
      (.inl (rfl : limit = limit)) token
    exact own.eq finishes

section Whole

variable {s : State} (finish : s.finish.kind = .endOfInput)

include finish

/-- A bound above the tokens left is as good as none. -/
theorem upTo_of_unbounded {p : Nat → Parser α} (finishes : ∀ k, Finishes (State.Within k) (p k))
    (mono : ∀ k, k ≤ n → Transport.staying.Carries (p k) (p n)) (enough : s.tokens.length < n) :
    p n s = unbounded p s := by
  have own : below n (unbounded p) s = unbounded p s := if_pos enough
  rw [← own]
  refine (carries_of_unbounded mono).eq fun t => ?_
  rw [own]
  exact unbounded_ne_exhausted finishes finish t

theorem upTo_expression (power : BindingPower) (enough : s.tokens.length < n) :
    (Productions.upTo limit n).expression power s = (Productions.whole limit).expression power s :=
  upTo_of_unbounded finish (fun k => (finishes_upTo limit k).expression power)
    (fun _ less => (Transport.inner_upTo (.inl rfl) less).expression power) enough

theorem upTo_block (enough : s.tokens.length < n) :
    (Productions.upTo limit n).block s = (Productions.whole limit).block s :=
  upTo_of_unbounded finish (fun k => (finishes_upTo limit k).block)
    (fun _ less => (Transport.inner_upTo (.inl rfl) less).block) enough

theorem upTo_conditional (token : Token) (enough : s.tokens.length < n) :
    (Productions.upTo limit n).conditional token s =
      (Productions.whole limit).conditional token s :=
  upTo_of_unbounded finish (fun k => (finishes_upTo limit k).conditional token)
    (fun _ less => (Transport.inner_upTo (.inl rfl) less).conditional token) enough

/-- Without a bound, an expression is its own body. -/
theorem expression_whole (power : BindingPower) (enough : s.tokens.length < bound) :
    expression limit bound (.whole limit) power s =
      (Productions.whole limit).expression power s := by
  have equation := (recursive_whole limit).expression power s bound finish enough
  rw [equation]
  refine (Transport.carries_expression (inner_of_below (.whole limit) s.tokens.length)
    (.inl rfl) (Nat.le_refl bound) power).eq fun t => ?_
  rw [← equation]
  exact (recursive_whole limit).returns.1 power s t finish

theorem block_whole (enough : s.tokens.length < bound) :
    block bound (.whole limit) s = (Productions.whole limit).block s := by
  have equation := (recursive_whole limit).block s bound finish enough
  rw [equation]
  refine (Transport.carries_block (inner_of_below (.whole limit) s.tokens.length)
    (Nat.le_refl bound)).eq fun t => ?_
  rw [← equation]
  exact (recursive_whole limit).returns.2.1 s t finish

theorem conditional_whole (token : Token) :
    conditional limit (.whole limit) token s = (Productions.whole limit).conditional token s := by
  have equation := (recursive_whole limit).conditional token s finish
  rw [equation]
  refine (Transport.carries_conditional (inner_of_below (.whole limit) s.tokens.length)
    (.inl rfl) token).eq fun t => ?_
  rw [← equation]
  exact (recursive_whole limit).returns.2.2 token s t finish

end Whole

/-! ## Programs -/

/-- Each loop of the parser uses tokens up in every round that goes on.  The loop over operators is
the one that carries what it has read from round to round. -/
structure Loops (limit bound : Nat) (inner : Productions) : Prop where
  program : Consuming (programItem bound inner)
  block : ∀ token, Consuming (blockItem bound inner token)
  parameters : Consuming (commaItem expectIdentifier)
  arguments : Consuming (commaItem (nextExpression inner .lowest))
  properties : Consuming (commaProperty inner)
  operators : ∀ power left, Consuming (operatorRound limit bound inner power left) ∧
    ∀ n, Parser.operators limit bound inner power (n + 1) left = (do
      match ← operatorRound limit bound inner power left with
      | some wider => Parser.operators limit bound inner power n wider
      | none => return left)
  recovery : ∀ opened t rest, resume opened (t :: rest) = t :: rest ∨
    ∃ after, resume opened (t :: rest) = resume after rest

theorem loops_of_onward (limit bound : Nat) (inner : Productions) [inner.Onward] :
    Loops limit bound inner where
  program := consuming_programItem inner
  block token := consuming_blockItem inner token
  parameters := consuming_commaItem expectIdentifier
  arguments := consuming_commaItem (nextExpression inner .lowest)
  properties := consuming_commaProperty inner
  operators power left :=
    ⟨consuming_operatorRound inner power left, fun _ => operators_succ inner power left⟩
  recovery := resume_cons_cases

/-- Reading a program is repeating the productions without a bound, as often as any bound above the
tokens left allows. -/
theorem collect_whole {s : State} (finish : s.finish.kind = .endOfInput)
    (enough : s.tokens.length + 1 < bound) :
    collect (programItem bound (Productions.whole limit)) bound s = program limit s := by
  have source (n : Nat) : Finishes (State.Within n)
      (collect (programItem (n + 1) ((Productions.whole limit).below n)) (n + 1)) := by
    refine finishes_items ((Productions.whole limit).below n)
      (Finishes.then (R := State.Ahead) inferInstance fun here => by split <;> infer_instance) ?_
    intro s found t h
    exact programItem_eq_some h
  have finishes := (source (s.tokens.length + 1)).ne_exhausted s ⟨finish, Nat.lt_succ_self _⟩
  have whole := (Transport.carries_programItem (inner_of_below (.whole limit) (s.tokens.length + 1))
    enough).collect enough
  have own := (Transport.carries_programItem (inner_upTo_of_whole limit (s.tokens.length + 1))
    (Nat.le_refl (s.tokens.length + 2))).collect (Nat.le_refl (s.tokens.length + 2))
  exact (whole.eq finishes).trans (own.eq finishes).symm

end Parser

open Guion.Parser

/-- **Parsing ends.**  Every text is read up to its end, whatever the limit on nesting and however
large the bounds.  Every round of a loop that goes on uses tokens up, and every way back into an
expression, a block or a conditional is taken with fewer tokens left. -/
theorem parsing_returns (limit : Nat) :
    (∀ source, ∃ p t, program limit (.ofScanned (scan source)) = .ok p t ∧
      parse limit source = ⟨p, t.errors.toList⟩ ∧ t.current.kind = .endOfInput ∧
      ∀ bound, (scan source).tokens.length + 1 < bound →
        Bounded.collect (programItem bound (.whole limit)) bound (.ofScanned (scan source)) =
          .ok p t) ∧
      (∀ bound, Loops limit bound (.whole limit)) ∧ (Productions.whole limit).Recursive limit := by
  refine ⟨fun source => ?_, fun bound => loops_of_onward limit bound _, recursive_whole limit⟩
  have finish := (State.sane_ofScanned source).finish
  obtain ⟨p, t, run⟩ := program_eq_ok limit finish
  refine ⟨p, t, run, ?_, current_of_collect _ run, fun bound enough => ?_⟩
  · rw [parse, Scanned.parse, EStateM.run, run]
  · rw [collect_whole finish enough, run]

/-- Parentheses and braces that are never closed, under a limit that no text comes near. -/
theorem parsing_returns_unclosed :
    (scan "func f( \x7b si (a").tokens.length + 1 < 12 ∧
      ∃ p t, Bounded.collect (programItem 12 (.whole 1000000)) 12
          (.ofScanned (scan "func f( \x7b si (a")) = .ok p t ∧ t.current.kind = .endOfInput := by
  obtain ⟨p, t, -, -, ended, bounds⟩ := (parsing_returns 1000000).1 "func f( \x7b si (a"
  exact ⟨by decide +kernel, p, t, bounds 12 (by decide +kernel), ended⟩

end Guion
