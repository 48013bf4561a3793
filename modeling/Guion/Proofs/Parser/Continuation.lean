import Guion.Proofs.Parser.Isolation

/-!
# Statements before a last semicolon

A statement of a text whose last token is a semicolon is read the same way when more tokens follow
that semicolon (`follows_statement`).

Up to the last semicolon a parser sees tokens of its own text only, as long as it looks no further
than one token ahead of a token other than that semicolon.  Expressions and blocks never end on a
semicolon (`Lands`), so where they end, the last semicolon is still ahead, and all they did they do
in the longer text as well.  What is left of a statement is to pass the semicolon, without a look at
what comes after it.
-/

set_option autoImplicit false

namespace Guion

namespace Parser

open Bounded Movable

variable {α β : Type}

/-! ## Where productions end -/

/-- The current token is neither a semicolon nor the end of input. -/
structure State.Amid (s : State) : Prop where
  semicolon : s.current.kind ≠ .semicolon
  before_end : s.current.kind ≠ .endOfInput

/-- A run of `p` that succeeds ends amid tokens. -/
def Lands (p : Parser α) : Prop := ∀ s a t, p s = .ok a t → t.Amid

/-- A run of `p` that starts amid tokens and succeeds ends amid tokens. -/
def Stays (p : Parser α) : Prop := ∀ s a t, s.Amid → p s = .ok a t → t.Amid

section Steps

variable {p : Parser α} {f : α → Parser β}

theorem Lands.stays (h : Lands p) : Stays p := fun s a t _ => h s a t

theorem Stays.bind (first : Stays p) (rest : ∀ a, Stays (f a)) : Stays (p >>= f) := by
  intro s b t start run
  obtain ⟨a, u, run, last⟩ := bind_eq_ok_iff.1 run
  exact rest a u b t (first s a u start run) last

theorem Lands.bind (first : Lands p) (rest : ∀ a, Stays (f a)) : Lands (p >>= f) := by
  intro s b t run
  obtain ⟨a, u, run, last⟩ := bind_eq_ok_iff.1 run
  exact rest a u b t (first s a u run) last

/-- What matters is how a sequence ends. -/
theorem Lands.last (rest : ∀ a, Lands (f a)) : Lands (p >>= f) := by
  intro s b t run
  obtain ⟨a, u, -, last⟩ := bind_eq_ok_iff.1 run
  exact rest a u b t last

theorem stays_pure (a : α) : Stays (pure a) := by
  intro s b t start run
  cases run
  exact start

theorem lands_failHere (fault : SyntaxError.Fault) : Lands (failHere fault : Parser α) := by
  intro s a t run
  cases run

theorem State.Amid.of_kind {s : State} {kind : Token.Kind} (found : s.current.kind = kind)
    (inside : kind ≠ .semicolon ∧ kind ≠ .endOfInput) : s.Amid :=
  ⟨found ▸ inside.1, found ▸ inside.2⟩

theorem lands_expect (kind : Token.Kind) (inside : kind ≠ .semicolon ∧ kind ≠ .endOfInput) :
    Lands (expect kind) := by
  intro s a t run
  obtain ⟨found, rfl⟩ := expect_eq_ok run
  exact .of_kind (s := s.advance) found inside

theorem lands_expectIdentifier : Lands expectIdentifier := by
  refine (lands_expect .identifier (by decide)).bind fun _ s _ _ amid run => ?_
  cases run
  exact amid

theorem State.Amid.with_depth {s : State} (h : s.Amid) (depth : Nat) :
    ({ s with depth } : State).Amid :=
  ⟨h.semicolon, h.before_end⟩

theorem Lands.nested {limit : Nat} (h : Lands p) : Lands (nested limit p) := by
  intro s a t run
  obtain ⟨_, u, -, last⟩ := bind_eq_ok_iff.1 run
  obtain ⟨v, inside, rfl⟩ := ensuring_eq_ok last
  exact (h u a v inside).with_depth _

theorem Stays.keepingDepth (h : Stays p) : Stays (keepingDepth p) := by
  intro s a t start run
  obtain ⟨v, inside, rfl⟩ := ensuring_eq_ok run
  exact (h s a v start inside).with_depth _

end Steps

/-- The productions one level further in end amid tokens. -/
class Productions.Lands (inner : Productions) : Prop where
  expression : ∀ power, Parser.Lands (inner.expression power)
  block : Parser.Lands inner.block
  conditional : ∀ token, Parser.Lands (inner.conditional token)

section Productions

variable {limit bound : Nat} {inner : Productions} [lands : inner.Lands]

theorem lands_nextExpression (power : BindingPower) : Lands (nextExpression inner power) :=
  .last fun _ => lands.expression power

theorem lands_functionRest : Lands (functionRest bound inner) :=
  .last fun _ => .last fun _ => .last fun _ => lands.block.bind fun _ => stays_pure _

theorem stays_alternative : Stays (alternative limit inner) := by
  intro s other t amid
  rw [alternative, peek_bind]
  cases s.peek.kind with
  | sino =>
    exact Lands.last (fun _ => .last fun _ => lands.block.bind fun _ => stays_pure _) s other t
  | sinosi =>
    exact Lands.last (fun _ => .last fun token =>
      (lands.conditional token).nested.bind fun _ => stays_pure _) s other t
  | _ => exact stays_pure _ s other t amid

theorem lands_conditional (token : Token) : Lands (conditional limit inner token) :=
  .last fun _ => .last fun _ => .last fun _ => .last fun _ => lands.block.bind fun _ =>
    stays_alternative.bind fun _ => stays_pure _

theorem lands_operand : Lands (operand limit bound inner) := by
  intro s e t
  rw [operand, current_bind]
  cases kind : s.current.kind with
  | identifier | verdadero | falso | string => exact stays_pure _ s e t (.of_kind kind (by decide))
  | integer =>
    cases Number.readInteger? s.current.text with
    | some value => exact stays_pure _ s e t (.of_kind kind (by decide))
    | none => exact lands_failHere _ s e t
  | float =>
    cases Number.read? s.current.text with
    | some value => exact stays_pure _ s e t (.of_kind kind (by decide))
    | none => exact lands_failHere _ s e t
  | bang | minus => exact (lands_nextExpression .unary).bind (fun _ => stays_pure _) s e t
  | leftParen =>
    exact Lands.last (fun _ => (lands_expect .rightParen (by decide)).bind fun _ =>
      stays_pure _) s e t
  | func => exact lands_functionRest.bind (fun _ => stays_pure _) s e t
  | si => exact lands_conditional _ s e t
  | leftCurly =>
    exact Lands.last (fun _ => (lands_expect .rightCurly (by decide)).bind fun _ =>
      stays_pure _) s e t
  | _ => exact lands_failHere _ s e t

omit lands in
theorem lands_arguments : Lands (arguments bound inner) := by
  intro s values t
  rw [arguments, peek_bind]
  split
  · rename_i closing
    intro run
    cases run
    exact .of_kind (s := s.advance) closing (by decide)
  · exact Lands.last (fun _ => .last fun _ => (lands_expect .rightParen (by decide)).bind fun _ =>
      stays_pure _) s values t

theorem stays_extend (left : Expression) : Stays (extend bound inner left) := by
  intro s e t amid
  rw [extend, current_bind]
  cases s.current.kind with
  | assign =>
    cases left with
    | identifier target =>
      exact (lands_nextExpression .lowest).bind (fun _ => stays_pure _) s e t
    | _ => exact lands_failHere _ s e t
  | leftParen => exact lands_arguments.bind (fun _ => stays_pure _) s e t
  | dot => exact lands_expectIdentifier.bind (fun _ => stays_pure _) s e t
  | leftBracket =>
    exact Lands.last (fun _ => (lands_expect .rightBracket (by decide)).bind fun _ =>
      stays_pure _) s e t
  | equal | notEqual | less | lessEqual | greater | greaterEqual | plus | minus | star | slash =>
    exact (lands_nextExpression _).bind (fun _ => stays_pure _) s e t
  | _ => exact stays_pure _ s e t amid

theorem stays_resultValue : Stays (resultValue inner) := by
  intro s value t amid
  rw [resultValue, peek_bind]
  cases s.peek.kind with
  | semicolon | rightCurly | endOfInput => exact stays_pure _ s value t amid
  | _ =>
    rw [map_eq_bind]
    exact (lands_nextExpression .lowest).bind (fun _ => stays_pure _) s value t

/-- A token that binds is neither a semicolon nor the end of input. -/
theorem amid_of_binds {power : BindingPower} {s : State} (binds : power < .ofKind s.peek.kind) :
    s.advance.Amid := by
  have positive {kind : Token.Kind} (weak : BindingPower.ofKind kind = .lowest) :
      s.peek.kind ≠ kind := by
    rintro rfl
    rw [weak] at binds
    exact absurd binds (Nat.not_lt_zero _)
  exact ⟨positive rfl, positive rfl⟩

theorem stays_operators (power : BindingPower) (n : Nat) : ∀ left,
    Stays (operators limit bound inner power n left) := by
  induction n with
  | zero =>
    intro left s e t _ run
    cases run
  | succ n ih =>
    intro left s e t amid
    rw [operators, peek_bind]
    split
    · rename_i binds
      intro run
      obtain ⟨_, u, entered, rest⟩ := bind_eq_ok_iff.1 run
      obtain ⟨-, rfl⟩ := enter_eq_ok entered
      rw [advance_bind] at rest
      have next : ({ s with depth := s.depth + 1 } : State).advance.Amid := amid_of_binds binds
      exact (stays_extend left).bind ih _ e t next rest
    · exact stays_pure left s e t amid

theorem lands_expression (power : BindingPower) : Lands (expression limit bound inner power) :=
  Lands.nested (lands_operand.bind fun left => (stays_operators power bound left).keepingDepth)

omit lands in
/-- A block ends on its brace. -/
theorem lands_block : Lands (block bound inner) := by
  have ends (token : Token) (n : Nat) : Lands (collect (blockItem bound inner token) n) := by
    induction n with
    | zero =>
      intro s ss t run
      cases run
    | succ n ih =>
      intro s ss t run
      obtain ⟨found, u, round, rest⟩ := bind_eq_ok_iff.1 run
      cases found with
      | some found =>
        obtain ⟨more, v, again, last⟩ := bind_eq_ok_iff.1 rest
        cases last
        exact ih u more t again
      | none =>
        cases rest
        -- a block that is not closed is an error, so it is the brace that stops the rounds
        by_cases closing : s.current.kind = .rightCurly
        · rw [blockItem_of_rightCurly token closing] at round
          cases round
          exact .of_kind closing (by decide)
        · by_cases ended : s.current.kind = .endOfInput
          · rw [blockItem_of_endOfInput token ended] at round
            cases round
          · rw [blockItem_of_ne token closing ended, map_eq_bind] at round
            obtain ⟨_, _, _, last⟩ := bind_eq_ok_iff.1 round
            cases last
  exact .last fun token => .last fun _ => (ends token bound).bind fun _ => stays_pure _

instance : (inner.next limit bound).Lands where
  expression _ := lands_expression _
  block := lands_block
  conditional _ := lands_conditional _

end Productions

instance lands_upTo (limit n : Nat) : (Productions.upTo limit n).Lands := by
  induction n with
  | zero => exact ⟨fun _ _ _ _ => nofun, fun _ _ _ => nofun, fun _ _ _ _ => nofun⟩
  | succ n ih => exact inferInstanceAs ((Productions.upTo limit n).next limit (n + 1)).Lands

/-! ## Up to the last semicolon -/

/-- The tokens left end with a semicolon. -/
structure State.Closed (s : State) : Prop where
  sane : s.Sane
  last : ∃ front semicolon, s.tokens = front ++ [semicolon] ∧ semicolon.kind = .semicolon

namespace State.Closed

variable {s t : State}

theorem tokens_ne_nil (h : s.Closed) : s.tokens ≠ [] := by
  obtain ⟨front, semicolon, tokens, -⟩ := h.last
  rw [tokens]
  exact List.append_ne_nil_of_right_ne_nil _ (List.cons_ne_nil _ _)

theorem onward (h : s.Closed) (ahead : s.Ahead t) (left : t.tokens ≠ []) : t.Closed := by
  refine ⟨h.sane.onward ahead, ?_⟩
  obtain ⟨front, semicolon, tokens, kind⟩ := h.last
  have suffix := ahead.tokens
  rw [tokens] at suffix
  rcases List.suffix_concat_iff.1 suffix with none | ⟨mid, same, -⟩
  · exact absurd none left
  · exact ⟨mid, semicolon, same, kind⟩

/-- Amid the tokens, the last semicolon is still ahead. -/
theorem ahead_ne_nil (h : s.Closed) (amid : s.Amid) : s.ahead ≠ [] := by
  intro last
  obtain ⟨front, semicolon, tokens, kind⟩ := h.last
  rw [State.tokens_eq_cons h.sane.finish amid.before_end, last] at tokens
  have alone : [] ++ [s.current] = front ++ [semicolon] := tokens
  rw [← List.singleton_inj.1 (List.append_inj_right' alone rfl)] at kind
  exact amid.semicolon kind

theorem of_amid (h : s.Closed) (ahead : s.Ahead t) (amid : t.Amid) : t.Closed := by
  have left := State.tokens_eq_cons (h.sane.onward ahead).finish amid.before_end
  exact h.onward ahead (by rw [left]; exact List.cons_ne_nil _ _)

end State.Closed

/-! ## More tokens after the semicolon -/

section Followed

variable [Movable α] [Movable β] {next : Scanned}

/-- The same tokens with others after them. -/
def Transport.followedBy (next : Scanned) : Transport := ⟨id, #[], fun _ => False, some next⟩

/-- The state with more tokens after those left. -/
abbrev State.followedBy (next : Scanned) (s : State) : State :=
  (Transport.followedBy next).state s

theorem State.followedBy_eq (s : State) :
    s.followedBy next = ⟨s.tokens ++ next.tokens, next.finish, s.depth, s.errors⟩ := by
  have tokens : s.tokens.map (Token.move id) = s.tokens := List.map_id _
  have errors : s.errors.map (SyntaxError.move id) = s.errors := Array.map_id _
  simp only [Transport.state, Transport.followedBy, tokens, errors, Array.empty_append,
    Option.elim_some]

variable (next) in
/-- From `s`, a run of `p` that succeeds is one of `p'` with more tokens after those left, and
leaves one of its own. -/
def Follows (p p' : Parser α) (s : State) : Prop := ∀ a t, p s = .ok a t →
  p' (s.followedBy next) = .ok (move id a) (t.followedBy next) ∧ t.tokens ≠ []

variable {p p' : Parser α} {f f' : α → Parser β} {s : State}

theorem follows_pure (left : s.tokens ≠ []) (a : α) :
    Follows next (pure a) (pure (move id a)) s := by
  intro b t run
  cases run
  exact ⟨rfl, left⟩

theorem Follows.ite {q q' : Parser α} {c : Prop} [Decidable c] (yes : Follows next p p' s)
    (no : Follows next q q' s) :
    Follows next (if c then p else q) (if c then p' else q') s := by
  split
  · exact yes
  · exact no

theorem Follows.map_some (h : Follows next p p' s) : Follows next (some <$> p) (some <$> p') s := by
  intro found t run
  rw [map_eq_bind] at run
  obtain ⟨a, u, run, last⟩ := bind_eq_ok_iff.1 run
  cases last
  obtain ⟨moved, left⟩ := h a t run
  exact ⟨map_some_of_ok moved, left⟩

theorem follows_current {f f' : Token → Parser α} (closed : s.Closed)
    (rest : Follows next (f s.current) (f' (s.current.move id)) s) :
    Follows next (current >>= f) (current >>= f') s := by
  intro a t run
  rw [current_bind, Transport.current_state (.inr closed.tokens_ne_nil)]
  exact rest a t run

theorem follows_peek {f f' : Token → Parser α} (ahead : s.ahead ≠ [])
    (rest : Follows next (f s.peek) (f' (s.peek.move id)) s) :
    Follows next (peek >>= f) (peek >>= f') s := by
  intro a t run
  rw [peek_bind, Transport.peek_state (.inr ahead)]
  exact rest a t run

theorem follows_advance {f f' : Unit → Parser α} (closed : s.Closed)
    (rest : Follows next (f ()) (f' ()) s.advance) :
    Follows next (advance >>= f) (advance >>= f') s := by
  intro a t run
  rw [advance_bind, Transport.advance_state (.inr closed.tokens_ne_nil)]
  exact rest a t run

/-- What ends amid tokens carries over, and the last semicolon is still ahead. -/
theorem ok_followedBy [Onward p] {a : α} {t : State} (closed : s.Closed)
    (carries : (Transport.followedBy next).Carries p p') (run : p s = .ok a t) (amid : t.Amid) :
    p' (s.followedBy next) = .ok (move id a) (t.followedBy next) ∧ t.Closed ∧ t.ahead ≠ [] := by
  have closed : t.Closed := closed.of_amid (Keeps.ok run) amid
  have ahead := closed.ahead_ne_nil amid
  have unexcused : ¬ (Transport.followedBy next).Excused (p s) := by
    rw [run]
    rintro (⟨_, _, excused⟩ | ⟨-, none⟩)
    · exact excused
    · exact ahead none
  have moved := carries s unexcused
  rw [run] at moved
  exact ⟨moved, closed, ahead⟩

theorem Follows.bind [Onward p] (closed : s.Closed) (ends : ∀ a t, p s = .ok a t → t.Amid)
    (first : (Transport.followedBy next).Carries p p')
    (rest : ∀ a t, t.Closed → t.ahead ≠ [] → Follows next (f a) (f' (move id a)) t) :
    Follows next (p >>= f) (p' >>= f') s := by
  intro b t run
  obtain ⟨a, u, run, last⟩ := bind_eq_ok_iff.1 run
  obtain ⟨moved, closed, ahead⟩ := ok_followedBy closed first run (ends a u run)
  rw [bind_of_ok moved]
  exact rest a u closed ahead b t last

variable (next) in
/-- The semicolon is passed if it is next, and what comes after it is not looked at. -/
theorem skipSemicolon_followedBy (closed : s.Closed) (ahead : s.ahead ≠ []) :
    ∃ t, skipSemicolon s = .ok () t ∧ t.tokens ≠ [] ∧
      skipSemicolon (s.followedBy next) = .ok () (t.followedBy next) := by
  refine ⟨_, skipSemicolon_apply s, ?_, ?_⟩
  · split
    · exact ahead
    · exact closed.tokens_ne_nil
  · -- the token after the current one is still one of the first text
    rw [skipSemicolon_apply, Transport.peek_state (.inr ahead),
      Transport.advance_state (.inr closed.tokens_ne_nil)]
    show EStateM.Result.ok () (if s.peek.kind = .semicolon then _ else _) = _
    split <;> rfl

theorem follows_skipSemicolon {f f' : Unit → Parser α} (closed : s.Closed) (ahead : s.ahead ≠ [])
    (rest : ∀ t : State, t.tokens ≠ [] → Follows next (f ()) (f' ()) t) :
    Follows next (skipSemicolon >>= f) (skipSemicolon >>= f') s := by
  intro a t run
  obtain ⟨u, skipped, left, moved⟩ := skipSemicolon_followedBy next closed ahead
  rw [bind_of_ok skipped] at run
  rw [bind_of_ok moved]
  exact rest u left a t run

/-! ## Statements -/

variable {bound bound' : Nat} {inner inner' : Productions} [inner.Onward] [lands : inner.Lands]
  (deeper : (Transport.followedBy next).Inner inner inner')

include deeper

theorem follows_declaration (closed : s.Closed) :
    Follows next (declaration inner) (declaration inner') s := by
  refine follows_current closed (.bind closed (lands_expectIdentifier s)
    Transport.carries_expectIdentifier fun name t closed ahead => follows_peek ahead (.ite ?_ ?_))
  · have more : t.advance.Closed := closed.onward t.ahead_advance ahead
    exact follows_advance closed (.bind more (lands_nextExpression .lowest _)
      (Transport.carries_nextExpression deeper .lowest) fun _ _ closed ahead =>
        follows_skipSemicolon closed ahead fun _ left => follows_pure left _)
  · refine follows_skipSemicolon closed ahead fun _ left => .ite ?_ (follows_pure left _)
    intro a t run
    cases run

theorem follows_result (closed : s.Closed) (amid : s.Amid) :
    Follows next (result inner) (result inner') s := by
  refine follows_current closed (.bind closed (fun value t => stays_resultValue s value t amid)
    (Transport.carries_resultValue deeper) fun value t closed ahead =>
      follows_skipSemicolon closed ahead fun u left => ?_)
  have moved : Statement.result (s.current.move id) (move id value) =
      move id (Statement.result s.current value) := by
    rw [← Expression.moveOption_eq]
    rfl
  rw [moved]
  exact follows_pure left _

theorem follows_function (le : bound ≤ bound') (closed : s.Closed) :
    Follows next (function bound inner) (function bound' inner') s :=
  follows_current closed (.bind closed (lands_expectIdentifier s)
    Transport.carries_expectIdentifier fun _ t closed _ => .bind closed (lands_functionRest t)
      (Transport.carries_functionRest deeper le) fun _ _ closed ahead =>
        follows_skipSemicolon closed ahead fun _ left => follows_pure left _)

/-- A statement is read the same way with more tokens after the last semicolon. -/
theorem follows_statement (le : bound ≤ bound') (closed : s.Closed) :
    Follows next (statement bound inner) (statement bound' inner') s := by
  have other (token : Token) (amid : s.Amid) : Follows next
      (do if token.kind = .func ∧ (← peek).kind = .identifier then some <$> function bound inner
          else
            let value ← inner.expression .lowest
            skipSemicolon
            return some (.expression token value) : Parser (Option Statement))
      (do if token.kind = .func ∧ (← peek).kind = .identifier then some <$> function bound' inner'
          else
            let value ← inner'.expression .lowest
            skipSemicolon
            return some (.expression (token.move id) value)) s := by
    refine follows_peek (closed.ahead_ne_nil amid)
      (.ite (follows_function deeper le closed).map_some ?_)
    exact .bind closed (lands.expression .lowest s) (deeper.expression .lowest)
      fun _ _ closed ahead => follows_skipSemicolon closed ahead fun _ left => follows_pure left _
  refine follows_current closed ?_
  -- only a statement that is no semicolon itself looks further than its first token
  generalize here : s.current = token
  obtain ⟨kind, text, pos⟩ := token
  have found : s.current.kind = kind := by rw [here]
  cases kind with
  | semicolon => exact follows_pure closed.tokens_ne_nil none
  | var | constant => exact (follows_declaration deeper closed).map_some
  | regresa => exact (follows_result deeper closed (.of_kind found (by decide))).map_some
  | endOfInput =>
    exact absurd (closed.sane.tokens_eq_nil found) closed.tokens_ne_nil
  | _ => exact other _ (.of_kind found (by decide))

end Followed

end Parser

end Guion
