import Guion.Proofs.Parser.Continuation
import Guion.Proofs.Parser.Soundness
import Guion.Proofs.Token.Tiling

/-!
# Semicolons separate texts

A text whose last token is a semicolon and another text after it are read as each of them is on its
own, if the first has no errors or no braces (`semicolon_separates`).

Without errors, this is how statements go on past the last semicolon.  Without braces, a malformed
statement has to stop at the same token in the longer text (`Fails`), and to be skipped up to the
same semicolon: only inside a block does a parser look past a semicolon, and no block is entered.
-/

set_option autoImplicit false

namespace Guion

namespace Parser

open Bounded Movable

variable {α β : Type}

/-! ## Lists and parameters end amid tokens -/

theorem Stays.collect {round : Parser (Option (List α))} (h : Stays round) (n : Nat) :
    Stays (collect round n) := by
  induction n with
  | zero =>
    intro s as t _ run
    cases run
  | succ n ih =>
    refine h.bind fun found => ?_
    cases found with
    | none => exact stays_pure _
    | some found => exact ih.bind fun _ => stays_pure _

theorem Lands.commaItem {item : Parser α} (h : Lands item) : Stays (commaItem item) := by
  intro s found t amid
  rw [Parser.commaItem, peek_bind]
  split
  · exact Lands.last (fun _ => h.bind fun _ => stays_pure _) s found t
  · exact stays_pure _ s found t amid

theorem lands_parameters (bound : Nat) : Lands (parameters bound) := by
  intro s names t
  rw [parameters, peek_bind]
  split
  · rename_i closing
    intro run
    cases run
    exact .of_kind (s := s.advance) closing (by decide)
  · exact Lands.last (fun _ => .last fun _ => (lands_expect .rightParen (by decide)).bind fun _ =>
      stays_pure _) s names t

/-! ## Tokens without braces -/

/-- The tokens left end with a semicolon, and none of them is a brace. -/
structure State.Bare (s : State) : Prop extends s.Closed where
  braces : ∀ t ∈ s.tokens, t.kind ≠ .leftCurly ∧ t.kind ≠ .rightCurly

namespace State.Bare

variable {s t : State}

theorem onward (h : s.Bare) (ahead : s.Ahead t) (left : t.tokens ≠ []) : t.Bare :=
  ⟨h.toClosed.onward ahead left, fun u member => h.braces u (ahead.tokens.subset member)⟩

theorem of_amid (h : s.Bare) (ahead : s.Ahead t) (amid : t.Amid) : t.Bare :=
  h.onward ahead (h.toClosed.of_amid ahead amid).tokens_ne_nil

theorem advance (h : s.Bare) (amid : s.Amid) : s.advance.Bare :=
  h.onward s.ahead_advance (h.ahead_ne_nil amid)

theorem with_depth (h : s.Bare) (depth : Nat) : ({ s with depth } : State).Bare :=
  h.onward (s.ahead_of_depth depth) h.tokens_ne_nil

theorem before_end (h : s.Bare) : s.current.kind ≠ .endOfInput :=
  fun ended => h.tokens_ne_nil (h.sane.tokens_eq_nil ended)

theorem current_mem (h : s.Bare) : s.current ∈ s.tokens := by
  rw [State.tokens_eq_cons h.sane.finish h.before_end]
  exact List.mem_cons_self

end State.Bare

/-! ## Failing before the last semicolon -/

section Fails

variable {next : Scanned}

variable (next) in
/-- From `s`, a run of `p` that fails is one of `p'` with more tokens after those left, and leaves
one of its own. -/
def Fails (p p' : Parser α) (s : State) : Prop := ∀ e t, p s = .error (.error e) t →
  p' (s.followedBy next) = .error (.error e) (t.followedBy next) ∧ t.tokens ≠ []

variable {p p' : Parser α} {f f' : α → Parser β} {s : State}

/-- What never fails. -/
theorem fails_pure (a : α) : Fails next (pure a) p' s := by
  intro e t run
  cases run

theorem fails_failAt (left : s.tokens ≠ []) (pos : Position) (fault : SyntaxError.Fault) :
    Fails next (failAt pos fault : Parser α) (failAt pos fault) s := by
  intro e t run
  cases run
  exact ⟨rfl, left⟩

theorem fails_current {f f' : Token → Parser α} (left : s.tokens ≠ [])
    (rest : Fails next (f s.current) (f' (s.current.move id)) s) :
    Fails next (current >>= f) (current >>= f') s := by
  intro e t run
  rw [current_bind, Transport.current_state (.inr left)]
  exact rest e t run

theorem fails_peek {f f' : Token → Parser α} (ahead : s.ahead ≠ [])
    (rest : Fails next (f s.peek) (f' (s.peek.move id)) s) :
    Fails next (peek >>= f) (peek >>= f') s := by
  intro e t run
  rw [peek_bind, Transport.peek_state (.inr ahead)]
  exact rest e t run

theorem fails_advance {f f' : Unit → Parser α} (left : s.tokens ≠ [])
    (rest : Fails next (f ()) (f' ()) s.advance) :
    Fails next (advance >>= f) (advance >>= f') s := by
  intro e t run
  rw [advance_bind, Transport.advance_state (.inr left)]
  exact rest e t run

theorem fails_failHere (left : s.tokens ≠ []) (fault : SyntaxError.Fault) :
    Fails next (failHere fault : Parser α) (failHere fault) s :=
  fails_current left (fails_failAt left _ _)

theorem Fails.ite {q q' : Parser α} {c : Prop} [Decidable c] (yes : c → Fails next p p' s)
    (no : Fails next q q' s) : Fails next (if c then p else q) (if c then p' else q') s := by
  split
  · exact yes ‹c›
  · exact no

/-- After the last part that can fail, it does not matter how the longer run goes on. -/
theorem Fails.last {g : α → β} {f' : α → Parser β} (h : Fails next p p' s) :
    Fails next (p >>= fun a => pure (g a)) (p' >>= f') s := by
  intro e t run
  rcases bind_eq_error_iff.1 run with stopped | ⟨a, u, -, rest⟩
  · obtain ⟨moved, left⟩ := h e t stopped
    exact ⟨bind_of_error moved, left⟩
  · cases rest

theorem Fails.map {g : α → β} (h : Fails next p p' s) : Fails next (g <$> p) (g <$> p') s := by
  rw [map_eq_bind, map_eq_bind]
  exact h.last

/-- A sequence fails in its first part, or after this has ended amid tokens. -/
theorem Fails.bind [Movable α] [Onward p] (bare : s.Bare) (first : Fails next p p' s)
    (ends : ∀ a t, p s = .ok a t → t.Amid) (carries : (Transport.followedBy next).Carries p p')
    (rest : ∀ a t, t.Bare → t.Amid → Fails next (f a) (f' (move id a)) t) :
    Fails next (p >>= f) (p' >>= f') s := by
  intro e t run
  rcases bind_eq_error_iff.1 run with stopped | ⟨a, u, read, run⟩
  · obtain ⟨moved, left⟩ := first e t stopped
    exact ⟨bind_of_error moved, left⟩
  · have amid := ends a u read
    obtain ⟨moved, -⟩ := ok_followedBy bare.toClosed carries read amid
    rw [bind_of_ok moved]
    exact rest a u (bare.of_amid (Keeps.ok read) amid) amid e t run

theorem fails_expect (ahead : s.ahead ≠ []) (kind : Token.Kind) :
    Fails next (expect kind) (expect kind) s := by
  refine fails_peek ahead (.ite (fun _ e t run => ?_) (fails_failAt ?_ _ _))
  · cases run
  · exact fun none => ahead (by rw [State.ahead, none, List.tail_nil])

/-- Where there are no braces, no block starts. -/
theorem fails_expect_leftCurly {f f' : Unit → Parser α} (bare : s.Bare) (ahead : s.ahead ≠ []) :
    Fails next (expect .leftCurly >>= f) (expect .leftCurly >>= f') s := by
  intro e t run
  rcases bind_eq_error_iff.1 run with stopped | ⟨_, u, found, -⟩
  · obtain ⟨moved, left⟩ := fails_expect ahead .leftCurly e t stopped
    exact ⟨bind_of_error moved, left⟩
  · obtain ⟨brace, -⟩ := expect_eq_ok found
    have member : s.peek ∈ s.tokens := by
      have left := State.ahead_of_kind brace bare.sane.finish (by decide)
      rw [State.tokens_of_ahead left]
      exact List.mem_cons_of_mem _ List.mem_cons_self
    exact absurd brace (bare.braces s.peek member).1

theorem fails_expectIdentifier (ahead : s.ahead ≠ []) :
    Fails next expectIdentifier expectIdentifier s := by
  intro e t run
  rcases bind_eq_error_iff.1 run with stopped | ⟨_, u, -, named⟩
  · obtain ⟨moved, left⟩ := fails_expect ahead .identifier e t stopped
    exact ⟨bind_of_error moved, left⟩
  · cases named

theorem fails_enter {limit : Nat} {f f' : Unit → Parser α} (left : s.tokens ≠ [])
    (rest : Fails next (f ()) (f' ()) { s with depth := s.depth + 1 }) :
    Fails next (enter limit >>= f) (enter limit >>= f') s := by
  intro e t run
  rcases enter_cases limit s with ⟨room, entered⟩ | ⟨full, refused⟩
  · rw [bind_of_ok entered] at run
    rw [bind_of_ok (enter_of_lt (s := s.followedBy next) room)]
    exact rest e t run
  · rw [bind_of_error refused] at run
    cases run
    rcases enter_cases limit (s.followedBy next) with ⟨room, -⟩ | ⟨-, refused⟩
    · exact absurd room (Nat.not_lt.2 full)
    · rw [bind_of_error refused, Transport.current_state (.inr left)]
      exact ⟨rfl, left⟩

theorem Fails.ensuring (h : Fails next p p' s) (after : State → State) {after' : State → State}
    (same : ∀ t, after' (State.followedBy next t) = (after t).followedBy next)
    (kept : ∀ t : State, (after t).tokens = t.tokens) :
    Fails next (ensuring after p) (ensuring after' p') s := by
  intro e t run
  rw [Bounded.ensuring] at run ⊢
  cases inside : p s with
  | ok a u =>
    rw [inside] at run
    cases run
  | error stop u =>
    rw [inside] at run
    cases run
    obtain ⟨moved, left⟩ := h e u inside
    rw [moved]
    exact ⟨congrArg _ (same u), by rw [kept]; exact left⟩

theorem Fails.nested {limit : Nat} (left : s.tokens ≠ [])
    (h : Fails next p p' { s with depth := s.depth + 1 }) :
    Fails next (nested limit p) (nested limit p') s :=
  fails_enter left (h.ensuring State.leave (fun _ => rfl) fun _ => rfl)

theorem Fails.keepingDepth (h : Fails next p p' s) :
    Fails next (keepingDepth p) (keepingDepth p') s :=
  h.ensuring (fun t => { t with depth := s.depth }) (fun _ => rfl) fun _ => rfl

theorem Fails.collect [Movable α] {round round' : Parser (Option (List α))} [Onward round]
    (h : ∀ {s : State}, s.Bare → s.Amid → Fails next round round' s) (stays : Stays round)
    (carries : (Transport.followedBy next).Carries round round') {n n' : Nat} (le : n ≤ n') :
    ∀ {s : State}, s.Bare → s.Amid → Fails next (collect round n) (collect round' n') s := by
  induction n generalizing n' with
  | zero =>
    intro s _ _ e t run
    cases run
  | succ n ih =>
    obtain ⟨n', rfl⟩ : ∃ k, n' = k + 1 := ⟨n' - 1, by omega⟩
    intro s bare amid
    refine .bind bare (h bare amid) (fun a t => stays s a t amid) carries
      fun found t bare amid => ?_
    cases found with
    | none => exact fails_pure _
    | some found => exact (ih (Nat.le_of_succ_le_succ le) bare amid).last

theorem Fails.commaSeparated [Movable α] {item item' : Parser α} [Onward item]
    (h : ∀ {s : State}, s.Bare → s.Amid → Fails next item item' s) (lands : Lands item)
    (carries : (Transport.followedBy next).Carries item item') {n n' : Nat} (le : n ≤ n')
    {s : State} (bare : s.Bare) (amid : s.Amid) :
    Fails next (commaSeparated n item) (commaSeparated n' item') s := by
  refine Fails.collect (fun bare amid => ?_) lands.commaItem carries.commaItem le bare amid
  refine fails_peek (bare.ahead_ne_nil amid) (.ite (fun comma => ?_) (fails_pure _))
  have here := State.Amid.of_kind (s := State.advance _) comma (by decide)
  exact fails_advance bare.tokens_ne_nil (h (bare.advance amid) here).last

theorem fails_parameters {bound bound' : Nat} (le : bound ≤ bound') (bare : s.Bare)
    (amid : s.Amid) : Fails next (parameters bound) (parameters bound') s := by
  have named {s : State} (bare : s.Bare) (amid : s.Amid) :
      Fails next expectIdentifier expectIdentifier s :=
    fails_expectIdentifier (bare.ahead_ne_nil amid)
  refine fails_peek (bare.ahead_ne_nil amid) (.ite (fun _ => ?_) ?_)
  · exact fails_advance bare.tokens_ne_nil (fails_pure _)
  · exact .bind bare (named bare amid) (lands_expectIdentifier s)
      Transport.carries_expectIdentifier fun _ t bare amid =>
        .bind bare (Fails.commaSeparated named lands_expectIdentifier
          Transport.carries_expectIdentifier le bare amid)
          (fun a u => (lands_expectIdentifier.commaItem.collect bound) t a u amid)
          (Transport.carries_expectIdentifier.commaSeparated le)
          fun _ u bare amid => (fails_expect (bare.ahead_ne_nil amid) .rightParen).last

/-! ## Productions -/

variable {limit bound bound' : Nat} {inner inner' : Productions} [inner.Onward]
  [lands : inner.Lands] (deeper : (Transport.followedBy next).Inner inner inner')
  (failing : ∀ (power : BindingPower) {s : State}, s.Bare →
    Fails next (inner.expression power) (inner'.expression power) s)

omit [inner.Onward] lands in
theorem fails_functionRest (le : bound ≤ bound') (bare : s.Bare) (amid : s.Amid) :
    Fails next (functionRest bound inner) (functionRest bound' inner') s :=
  .bind bare (fails_expect (bare.ahead_ne_nil amid) .leftParen)
    (lands_expect .leftParen (by decide) s) (Transport.carries_expect .leftParen)
    fun _ t bare amid =>
      .bind bare (fails_parameters le bare amid) (lands_parameters bound t)
        (Transport.carries_parameters le) fun _ _ bare amid =>
          fails_expect_leftCurly bare (bare.ahead_ne_nil amid)

include failing

omit [inner.Onward] lands in
theorem fails_nextExpression (power : BindingPower) (bare : s.Bare) (amid : s.Amid) :
    Fails next (nextExpression inner power) (nextExpression inner' power) s :=
  fails_advance bare.tokens_ne_nil (failing power (bare.advance amid))

include deeper

/-- An expression and the token that closes what it stands in. -/
theorem fails_enclosed {α : Type} {g : Expression → α} {f' : Expression → Unit → Parser α}
    (kind : Token.Kind) (bare : s.Bare) (amid : s.Amid) :
    Fails next (do let e ← nextExpression inner .lowest; expect kind; return g e)
      (do let e ← nextExpression inner' .lowest; expect kind >>= f' e) s :=
  .bind bare (fails_nextExpression failing .lowest bare amid) (lands_nextExpression .lowest s)
    (Transport.carries_nextExpression deeper .lowest) fun _ _ bare amid =>
      (fails_expect (bare.ahead_ne_nil amid) kind).last

theorem fails_conditional (token : Token) (bare : s.Bare) (amid : s.Amid) :
    Fails next (conditional limit inner token) (conditional limit inner' (token.move id)) s :=
  .bind bare (fails_expect (bare.ahead_ne_nil amid) .leftParen)
    (lands_expect .leftParen (by decide) s) (Transport.carries_expect .leftParen)
    fun _ t bare amid => .bind bare (fails_nextExpression failing .lowest bare amid)
      (lands_nextExpression .lowest t) (Transport.carries_nextExpression deeper .lowest)
      fun _ u bare amid => .bind bare (fails_expect (bare.ahead_ne_nil amid) .rightParen)
        (lands_expect .rightParen (by decide) u) (Transport.carries_expect .rightParen)
        fun _ _ bare amid => fails_expect_leftCurly bare (bare.ahead_ne_nil amid)

/-- An operand may be due at the last semicolon, and it fails there. -/
theorem fails_operand (le : bound ≤ bound') (bare : s.Bare) :
    Fails next (operand limit bound inner) (operand limit bound' inner') s := by
  have left := bare.tokens_ne_nil
  refine fails_current left ?_
  generalize here : s.current = token
  obtain ⟨kind, text, pos⟩ := token
  have found : s.current.kind = kind := by rw [here]
  cases kind with
  | identifier | verdadero | falso | string => exact fails_pure _
  | integer =>
    dsimp only [Token.move]
    cases Number.readInteger? text with
    | some value => exact fails_pure _
    | none => exact fails_failHere left _
  | float =>
    dsimp only [Token.move]
    cases Number.read? text with
    | some value => exact fails_pure _
    | none => exact fails_failHere left _
  | bang | minus =>
    exact (fails_nextExpression failing .unary bare (.of_kind found (by decide))).last
  | leftParen =>
    exact fails_enclosed deeper failing .rightParen bare (.of_kind found (by decide))
  | func => exact (fails_functionRest le bare (.of_kind found (by decide))).last
  | si => exact fails_conditional deeper failing _ bare (.of_kind found (by decide))
  | leftCurly => exact absurd found (bare.braces _ bare.current_mem).1
  | _ => exact fails_failHere left _

theorem fails_arguments (le : bound ≤ bound') (bare : s.Bare) (amid : s.Amid) :
    Fails next (arguments bound inner) (arguments bound' inner') s := by
  have value {s : State} (bare : s.Bare) (amid : s.Amid) :=
    fails_nextExpression failing .lowest bare amid
  have carries := Transport.carries_nextExpression deeper .lowest
  refine fails_peek (bare.ahead_ne_nil amid) (.ite (fun _ => ?_) ?_)
  · exact fails_advance bare.tokens_ne_nil (fails_pure _)
  · exact .bind bare (value bare amid) (lands_nextExpression .lowest s) carries
      fun _ t bare amid => .bind bare
        (Fails.commaSeparated value (lands_nextExpression .lowest) carries le bare amid)
        (fun a u => (lands_nextExpression .lowest).commaItem.collect bound t a u amid)
        (carries.commaSeparated le)
        fun _ u bare amid => (fails_expect (bare.ahead_ne_nil amid) .rightParen).last

theorem fails_extend (le : bound ≤ bound') (left : Expression) (bare : s.Bare) (amid : s.Amid) :
    Fails next (extend bound inner left) (extend bound' inner' (left.move id)) s := by
  refine fails_current bare.tokens_ne_nil ?_
  generalize s.current = token
  obtain ⟨kind, text, pos⟩ := token
  cases kind with
  | assign =>
    cases left with
    | identifier target => exact (fails_nextExpression failing .lowest bare amid).last
    | _ => exact fails_failHere bare.tokens_ne_nil _
  | leftParen => exact (fails_arguments deeper failing le bare amid).last
  | dot => exact (fails_expectIdentifier (bare.ahead_ne_nil amid)).last
  | leftBracket => exact fails_enclosed deeper failing .rightBracket bare amid
  | equal | notEqual | less | lessEqual | greater | greaterEqual | plus | minus | star | slash =>
    exact (fails_nextExpression failing _ bare amid).last
  | _ => exact fails_pure _

theorem fails_operators (le : bound ≤ bound') (power : BindingPower) {n n' : Nat}
    (rounds : n ≤ n') : ∀ (left : Expression) {s : State}, s.Bare → s.Amid →
      Fails next (operators limit bound inner power n left)
        (operators limit bound' inner' power n' (left.move id)) s := by
  induction n generalizing n' with
  | zero =>
    intro left s _ _ e t run
    cases run
  | succ n ih =>
    obtain ⟨n', rfl⟩ : ∃ k, n' = k + 1 := ⟨n' - 1, by omega⟩
    intro left s bare amid
    refine fails_peek (bare.ahead_ne_nil amid) (.ite (fun binds => ?_) (fails_pure _))
    have more := (bare.advance amid).with_depth (s.depth + 1)
    have here := (amid_of_binds binds).with_depth (s.depth + 1)
    refine fails_enter bare.tokens_ne_nil (fails_advance bare.tokens_ne_nil ?_)
    exact .bind more (fails_extend deeper failing le left more here)
      (fun wider t => stays_extend left _ wider t here)
      (Transport.carries_extend deeper le left)
      fun wider t bare amid => ih (Nat.le_of_succ_le_succ rounds) wider bare amid

theorem fails_expression (le : bound ≤ bound') (power : BindingPower) (bare : s.Bare) :
    Fails next (expression limit bound inner power) (expression limit bound' inner' power) s := by
  have inside := bare.with_depth (s.depth + 1)
  refine .nested bare.tokens_ne_nil (.bind inside (fails_operand deeper failing le inside)
    (lands_operand _) (Transport.carries_operand deeper (.inl rfl) le) fun left t bare amid => ?_)
  exact (fails_operators deeper failing le power le left bare amid).keepingDepth

/-! ## Statements -/

omit deeper failing lands [inner.Onward] in
theorem fails_skipSemicolon {f f' : Unit → Parser α} (closed : s.Closed) (ahead : s.ahead ≠ [])
    (rest : ∀ t : State, t.tokens ≠ [] → Fails next (f ()) (f' ()) t) :
    Fails next (skipSemicolon >>= f) (skipSemicolon >>= f') s := by
  intro e t run
  obtain ⟨u, skipped, left, moved⟩ := skipSemicolon_followedBy next closed ahead
  rw [bind_of_ok skipped] at run
  rw [bind_of_ok moved]
  exact rest u left e t run

/-- A constant without a value fails once its semicolon is passed. -/
theorem fails_declaration (bare : s.Bare) (amid : s.Amid) :
    Fails next (declaration inner) (declaration inner') s := by
  refine fails_current bare.tokens_ne_nil (.bind bare
    (fails_expectIdentifier (bare.ahead_ne_nil amid)) (lands_expectIdentifier s)
    Transport.carries_expectIdentifier fun name t bare amid =>
      fails_peek (bare.ahead_ne_nil amid) (.ite (fun assigned => ?_) ?_))
  · have here := State.Amid.of_kind (s := t.advance) assigned (by decide)
    have more := bare.advance amid
    exact fails_advance bare.tokens_ne_nil (.bind more
      (fails_nextExpression failing .lowest more here) (lands_nextExpression .lowest _)
      (Transport.carries_nextExpression deeper .lowest) fun _ _ bare amid =>
        fails_skipSemicolon bare.toClosed (bare.ahead_ne_nil amid) fun _ _ => fails_pure _)
  · exact fails_skipSemicolon bare.toClosed (bare.ahead_ne_nil amid) fun _ left =>
      .ite (fun _ => fails_failAt left _ _) (fails_pure _)

theorem fails_result (bare : s.Bare) (amid : s.Amid) :
    Fails next (result inner) (result inner') s := by
  have value : Fails next (resultValue inner) (resultValue inner') s := by
    refine fails_peek (bare.ahead_ne_nil amid) ?_
    generalize s.peek = token
    obtain ⟨kind, text, pos⟩ := token
    cases kind with
    | semicolon | rightCurly | endOfInput => exact fails_pure _
    | _ => exact (fails_nextExpression failing .lowest bare amid).map
  exact fails_current bare.tokens_ne_nil (.bind bare value
    (fun value t => stays_resultValue s value t amid) (Transport.carries_resultValue deeper)
    fun _ _ bare amid => fails_skipSemicolon bare.toClosed (bare.ahead_ne_nil amid)
      fun _ _ => fails_pure _)

omit failing in
theorem fails_function (le : bound ≤ bound') (bare : s.Bare) (amid : s.Amid) :
    Fails next (function bound inner) (function bound' inner') s :=
  fails_current bare.tokens_ne_nil (.bind bare
    (fails_expectIdentifier (bare.ahead_ne_nil amid)) (lands_expectIdentifier s)
    Transport.carries_expectIdentifier fun _ t bare amid =>
      .bind bare (fails_functionRest le bare amid) (lands_functionRest t)
        (Transport.carries_functionRest deeper le) fun _ _ bare amid =>
          fails_skipSemicolon bare.toClosed (bare.ahead_ne_nil amid) fun _ _ => fails_pure _)

/-- A malformed statement stops at the same token with more tokens after the last semicolon. -/
theorem fails_statement (le : bound ≤ bound') (bare : s.Bare) :
    Fails next (statement bound inner) (statement bound' inner') s := by
  have other (token : Token) (amid : s.Amid) : Fails next
      (do if token.kind = .func ∧ (← peek).kind = .identifier then some <$> function bound inner
          else
            let value ← inner.expression .lowest
            skipSemicolon
            return some (.expression token value) : Parser (Option Statement))
      (do if token.kind = .func ∧ (← peek).kind = .identifier then some <$> function bound' inner'
          else
            let value ← inner'.expression .lowest
            skipSemicolon
            return some (.expression (token.move id) value)) s := by
    refine fails_peek (bare.ahead_ne_nil amid) (.ite (fun _ => ?_) ?_)
    · exact (fails_function deeper le bare amid).map
    · exact .bind bare (failing .lowest bare) (lands.expression .lowest s)
        (deeper.expression .lowest) fun _ _ bare amid =>
          fails_skipSemicolon bare.toClosed (bare.ahead_ne_nil amid) fun _ _ => fails_pure _
  refine fails_current bare.tokens_ne_nil ?_
  generalize here : s.current = token
  obtain ⟨kind, text, pos⟩ := token
  have found : s.current.kind = kind := by rw [here]
  cases kind with
  | semicolon => exact fails_pure _
  | var | constant =>
    exact (fails_declaration deeper failing bare (.of_kind found (by decide))).map
  | regresa => exact (fails_result deeper failing bare (.of_kind found (by decide))).map
  | endOfInput => exact absurd found bare.before_end
  | _ => exact other _ (.of_kind found (by decide))

end Fails

theorem fails_upTo {next : Scanned} (limit : Nat) {n n' : Nat} (le : n ≤ n')
    (power : BindingPower) {s : State} (bare : s.Bare) :
    Fails next ((Productions.upTo limit n).expression power)
      ((Productions.upTo limit n').expression power) s := by
  induction n generalizing n' power s with
  | zero =>
    intro e t run
    cases run
  | succ n ih =>
    obtain ⟨n', rfl⟩ : ∃ k, n' = k + 1 := ⟨n' - 1, by omega⟩
    have fewer := Nat.le_of_succ_le_succ le
    exact fails_expression (Transport.inner_upTo (.inl rfl) fewer) (ih fewer) le power bare

/-! ## Skipping a malformed statement -/

/-- Without braces, a statement is skipped up to its semicolon, whatever follows. -/
theorem resume_of_semicolon (more : List Token) {tokens : List Token}
    (braces : ∀ t ∈ tokens, t.kind ≠ .leftCurly ∧ t.kind ≠ .rightCurly)
    (separated : ∃ t ∈ tokens, t.kind = .semicolon) :
    resume 0 (tokens ++ more) = resume 0 tokens ++ more ∧ resume 0 tokens ≠ [] := by
  induction tokens with
  | nil =>
    obtain ⟨t, member, -⟩ := separated
    exact absurd member List.not_mem_nil
  | cons t rest ih =>
    obtain ⟨not_opening, not_closing⟩ := braces t List.mem_cons_self
    rw [List.cons_append, Boundary.resume_cons_of_ne not_opening not_closing,
      Boundary.resume_cons_of_ne not_opening not_closing]
    by_cases here : t.kind = .semicolon
    · rw [if_pos ⟨rfl, .inl here⟩, if_pos ⟨rfl, .inl here⟩]
      exact ⟨rfl, List.cons_ne_nil _ _⟩
    · -- the semicolon is among the other tokens, so none of them ends a block
      obtain ⟨u, member, kind⟩ := separated
      rcases List.mem_cons.1 member with rfl | later
      · exact absurd kind here
      have others := fun t member => braces t (List.mem_cons_of_mem _ member)
      have inside (after : List Token) : atBlockEnd (rest ++ after) = false := by
        obtain ⟨v, vs, rfl⟩ := List.exists_cons_of_ne_nil (List.ne_nil_of_mem later)
        exact decide_eq_false (others v List.mem_cons_self).2
      have stays := inside []
      rw [List.append_nil] at stays
      simp only [here, inside more, stays, Bool.false_eq_true, or_self, and_false, if_false]
      exact ih others ⟨u, later, kind⟩

/-- A malformed statement is skipped in the longer text as well. -/
theorem State.Bare.recover (next : Scanned) {s : State} (bare : s.Bare) (e : SyntaxError) :
    (s.followedBy next).recover e = (s.recover e).followedBy next ∧
      (s.recover e).tokens ≠ [] := by
  obtain ⟨front, semicolon, tokens, kind⟩ := bare.last
  have separated : ∃ t ∈ s.tokens, t.kind = .semicolon := ⟨semicolon, by simp [tokens], kind⟩
  obtain ⟨resumed, left⟩ := resume_of_semicolon next.tokens bare.braces separated
  refine ⟨?_, left⟩
  simp only [State.followedBy_eq, State.recover, resumed]

/-! ## Programs -/

section Items

variable {bound : Nat} {inner : Productions} {s : State}

/-- A malformed statement is recorded and skipped, and its last token passed. -/
theorem item_of_error {e : SyntaxError} {t : State}
    (run : statement bound inner s = .error (.error e) t) :
    item bound inner s = .ok [] (t.recover e).advance := by
  have skipped : recovering (statement bound inner) s = .ok none (t.recover e) := by
    rw [recovering, run]
  rw [item, bind_of_ok skipped]
  rfl

/-- A statement that is read was well-formed, or malformed and skipped. -/
theorem item_cases {found : List Statement} {t : State} (run : item bound inner s = .ok found t) :
    (∃ one u, statement bound inner s = .ok one u ∧ found = one.toList ∧ t = u.advance) ∨
      ∃ e u, statement bound inner s = .error (.error e) u ∧ found = [] ∧
        t = (u.recover e).advance := by
  cases outcome : statement bound inner s with
  | ok one u =>
    rw [item_of_ok outcome] at run
    cases run
    exact .inl ⟨one, u, rfl, rfl, rfl⟩
  | error stop u =>
    cases stop with
    | error e =>
      rw [item_of_error outcome] at run
      cases run
      exact .inr ⟨e, u, rfl, rfl, rfl⟩
    | exhausted =>
      have stopped : recovering (statement bound inner) s = .error .exhausted u := by
        rw [recovering, outcome]
      rw [item, bind_of_error stopped] at run
      cases run

end Items

/-- No error was recorded on the way from `s` to `t`, or no braces are left at `s`. -/
def State.Plain (s t : State) : Prop :=
  t.errors = s.errors ∨ ∀ u ∈ s.tokens, u.kind ≠ .leftCurly ∧ u.kind ≠ .rightCurly

/-- What is plain is plain up to every state on the way, and from there on. -/
theorem State.Plain.split {s t u : State} (h : s.Plain u) (first : s.Ahead t) (rest : t.Ahead u) :
    s.Plain t ∧ t.Plain u := by
  rcases h with clean | braces
  · have same := first.errors_eq rest clean
    exact ⟨.inl same, .inl (clean.trans same.symm)⟩
  · exact ⟨.inr braces, .inr fun t member => braces t (first.tokens.subset member)⟩

section Joined

variable {next : Scanned} {limit bound bound' n n' : Nat} (inside : n ≤ n') (le : bound ≤ bound')

include inside le

/-- A statement and the move past it, without errors or without braces. -/
theorem item_joined {s t : State} {found : List Statement} (closed : s.Closed)
    (run : item bound (Productions.upTo limit n) s = .ok found t) (plain : s.Plain t) :
    item bound' (Productions.upTo limit n') (s.followedBy next) =
      .ok found (t.followedBy next) := by
  have deeper : (Transport.followedBy next).Inner (Productions.upTo limit n)
      (Productions.upTo limit n') := Transport.inner_upTo (.inl rfl) inside
  rcases item_cases run with ⟨one, u, read, rfl, rfl⟩ | ⟨e, u, stopped, rfl, rfl⟩
  · obtain ⟨moved, left⟩ := follows_statement deeper le closed one u read
    have same : (move id one).toList = one.toList := by
      cases one with
      | none => rfl
      | some one => exact congrArg (fun statement => [statement]) one.move_id
    rw [item_of_ok moved, same, Transport.advance_state (.inr left)]
  · have onward : s.Ahead u := Keeps.error stopped
    rcases plain with clean | braces
    · -- the error was recorded after those before it
      have recorded : (u.errors.push e).size = s.errors.size := congrArg Array.size clean
      have earlier : s.errors.size ≤ u.errors.size := onward.errors.length_le
      rw [Array.size_push] at recorded
      omega
    · have bare : s.Bare := ⟨closed, braces⟩
      obtain ⟨moved, left⟩ := fails_statement deeper (fails_upTo limit inside) le bare e u stopped
      obtain ⟨skipped, resumed⟩ := (bare.onward onward left).recover next e
      rw [item_of_error moved, skipped, Transport.advance_state (.inr resumed)]

/-- The statements of a text are read, and what follows is read from there. -/
theorem collect_joined {m : Nat} {more : List Statement} {u : State} (rounds : Nat) :
    ∀ {s t : State} {found : List Statement}, s.Sane → s.tokens = [] ∨ s.Closed → s.Plain t →
      collect (programItem bound (Productions.upTo limit n)) rounds s = .ok found t →
      collect (programItem bound' (Productions.upTo limit n')) m (t.followedBy next) =
        .ok more u →
      ∃ k, collect (programItem bound' (Productions.upTo limit n')) k (s.followedBy next) =
        .ok (found ++ more) u := by
  induction rounds with
  | zero =>
    intro s t found _ _ _ run
    cases run
  | succ rounds ih =>
    intro s t found sane start plain run rest
    obtain ⟨round, v, first, others⟩ := bind_eq_ok_iff.1 run
    cases round with
    | none =>
      -- the text ends here, and what follows starts
      obtain ⟨rfl, -⟩ := programItem_eq_none first
      cases others
      exact ⟨m, rest⟩
    | some here =>
      obtain ⟨before, read⟩ := programItem_eq_some first
      obtain ⟨later, w, again, same⟩ := bind_eq_ok_iff.1 others
      cases same
      have closed : s.Closed := start.resolve_left fun none => before (by
        rw [State.current, none]
        exact sane.finish)
      have onward : s.Ahead v := Keeps.ok read
      obtain ⟨own, further⟩ := plain.split onward (Keeps.ok again)
      have left : v.tokens = [] ∨ v.Closed := by
        by_cases none : v.tokens = []
        · exact .inl none
        · exact .inr (closed.onward onward none)
      obtain ⟨k, go⟩ := ih (sane.onward onward) left further again rest
      -- the statement is read in the longer text, too, and the rest of both texts after it
      have moved : item bound' (Productions.upTo limit n') (s.followedBy next) =
          .ok here (v.followedBy next) := item_joined inside le closed read own
      have inside : (s.followedBy next).current.kind ≠ .endOfInput := by
        rw [Transport.current_state (.inr closed.tokens_ne_nil)]
        exact before
      refine ⟨k + 1, ?_⟩
      rw [List.append_assoc, collect, bind_of_ok
        ((programItem_of_ne inside).trans (map_some_of_ok moved))]
      exact bind_eq_ok_iff.2 ⟨_, _, go, rfl⟩

end Joined

/-- A program that ends with a semicolon, and another program after it. -/
theorem program_joined {limit : Nat} {first second : Scanned} {found more : Program} {t u : State}
    (g : Position → Position) (closed : (State.ofScanned first).Closed)
    (run : program limit (.ofScanned first) = .ok found t)
    (plain : (State.ofScanned first).Plain t) (ended : second.finish.kind = .endOfInput)
    (own : program limit (.ofScanned second) = .ok more u) :
    program limit ((State.ofScanned first).followedBy (second.move g)) =
      .ok (found ++ more.move g) ((Transport.moving g t.errors).state u) := by
  have read : collect (programItem (first.tokens.length + 2)
      (Productions.upTo limit (first.tokens.length + 1))) (first.tokens.length + 2)
      (.ofScanned first) = .ok found t := run
  -- what follows starts out as it does on its own, after the errors of the first text
  have start : t.followedBy (second.move g) =
      (Transport.moving g t.errors).state (.ofScanned second) := by
    have depth : t.depth = 0 := Keeps.ok (R := State.SameDepth) read
    have none := (closed.sane.onward (Keeps.ok read)).tokens_eq_nil (current_of_collect _ read)
    rw [State.followedBy_eq, Transport.state_moving, none, depth]
    simp [State.ofScanned, Scanned.move]
  let both := (State.ofScanned first).followedBy (second.move g)
  have count : both.tokens.length = first.tokens.length + second.tokens.length := by
    simp [both, State.followedBy_eq, Scanned.move, State.ofScanned]
  have fewer : second.tokens.length ≤ both.tokens.length := by omega
  have after := Boundary.collect_of_program g t.errors (Nat.succ_le_succ fewer)
    (Nat.add_le_add_right fewer 2) own
  rw [← start] at after
  obtain ⟨k, run⟩ := collect_joined (by omega) (by omega) _ closed.sane (.inr closed) plain read
    after
  -- with enough rounds for both, this is the run of the program
  obtain ⟨all, v, joined⟩ := program_eq_ok limit (s := both) ended
  have enough := collect_of_le (Nat.le_add_left _ k) (joined : collect (programItem
    (both.tokens.length + 2) (Productions.upTo limit (both.tokens.length + 1)))
    (both.tokens.length + 2) both = .ok all v)
  rw [collect_of_le (Nat.le_add_right k _) run] at enough
  rw [joined, enough]

end Parser

/-! ## Texts -/

/-- A text that ends with a semicolon and has no errors or no braces, and another text after it. -/
theorem parse_joined (limit : Nat) {first : String} {front : List Token} {semicolon : Token}
    (tokens : (scan first).tokens = front ++ [semicolon]) (kind : semicolon.kind = .semicolon)
    (plain : (parse limit first).errors = [] ∨
      ∀ t ∈ (scan first).tokens, t.kind ≠ .leftCurly ∧ t.kind ≠ .rightCurly) (second : String) :
    parse limit (first ++ "\n" ++ second) =
      ⟨(parse limit first).program ++
          (parse limit second).program.move (Position.afterLine first).shift,
        (parse limit first).errors ++
          (parse limit second).errors.map (SyntaxError.move (Position.afterLine first).shift)⟩ := by
  have sane := Parser.State.sane_ofScanned first
  obtain ⟨found, t, run⟩ := Parser.program_eq_ok limit sane.finish
  obtain ⟨more, u, own⟩ := Parser.program_eq_ok limit (Parser.State.sane_ofScanned second).finish
  rw [parse, Scanned.parse, EStateM.run, run, Array.toList_eq_nil_iff] at plain
  have joined : Parser.State.ofScanned (scan (first ++ "\n" ++ second)) =
      (Parser.State.ofScanned (scan first)).followedBy
        ((scan second).move (Position.afterLine first).shift) := by
    rw [scan_newline (unterminated_of_semicolon tokens kind) second, Parser.State.followedBy_eq]
    rfl
  have both := Parser.program_joined (Position.afterLine first).shift
    ⟨sane, front, semicolon, tokens, kind⟩ run plain (kind_finish_scan second) own
  simp only [parse, Scanned.parse, EStateM.run, run, own, joined, both]
  simp [Parser.Transport.state_moving]

/-- **Continuation.**  A text that is read without errors and ends with a semicolon is read the same
way with another text after it, and the other text as on its own. -/
theorem parse_continued (limit : Nat) {first : String} {front : List Token} {semicolon : Token}
    (tokens : (scan first).tokens = front ++ [semicolon]) (kind : semicolon.kind = .semicolon)
    (clean : (parse limit first).errors = []) (second : String) :
    parse limit (first ++ "\n" ++ second) =
      ⟨(parse limit first).program ++
          (parse limit second).program.move (Position.afterLine first).shift,
        (parse limit second).errors.map (SyntaxError.move (Position.afterLine first).shift)⟩ := by
  rw [parse_joined limit tokens kind (.inl clean) second, clean, List.nil_append]

/-- **A semicolon is a hard boundary.**  A text that ends with a semicolon and has no errors or no
braces, a newline and another text are read as the statements of the first and those of the second,
with the errors of the first and those of the second.  The second text is read as on its own, with
or without errors, and stands as many bytes and lines further on as the first one and the newline
have. -/
theorem semicolon_separates (limit : Nat) (first : String)
    (closed : (scan first).tokens.getLast?.map Token.kind = some .semicolon)
    (plain : (parse limit first).errors = [] ∨
      ∀ t ∈ (scan first).tokens, t.kind ≠ .leftCurly ∧ t.kind ≠ .rightCurly) (second : String) :
    let shift : Position → Position := fun p =>
      ⟨first.utf8ByteSize + 1 + p.offset, first.toList.count '\n' + 1 + p.line, p.column⟩
    (parse limit (first ++ "\n" ++ second)).program =
        (parse limit first).program ++ (parse limit second).program.move shift ∧
      (parse limit (first ++ "\n" ++ second)).errors =
        (parse limit first).errors ++ (parse limit second).errors.map (SyntaxError.move shift) := by
  obtain ⟨semicolon, last, kind⟩ := Option.map_eq_some_iff.1 closed
  obtain ⟨front, tokens⟩ := List.getLast?_eq_some_iff.1 last
  have shift := funext (Position.shift_afterLine_apply first)
  rw [parse_joined limit tokens kind plain second, shift]
  exact ⟨rfl, rfl⟩

/-- Malformed statements without a brace in the first text, the last of them up to the last
semicolon, and a block that is not closed in the second. -/
theorem semicolon_separates_malformed :
    let first := "let x; a b); 1 +; // ;\n c (;"
    let second := "d; si (a) \x7b b"
    let shift : Position → Position := fun p => ⟨28 + 1 + p.offset, 1 + 1 + p.line, p.column⟩
    (parse 8 first).errors.length = 4 ∧ (parse 8 second).errors.length = 1 ∧
      (parse 8 (first ++ "\n" ++ second)).program =
        (parse 8 first).program ++ (parse 8 second).program.move shift ∧
      (parse 8 (first ++ "\n" ++ second)).errors =
        (parse 8 first).errors ++ (parse 8 second).errors.map (SyntaxError.move shift) := by
  intro first second shift
  have bytes : first.utf8ByteSize = 28 := by decide +kernel
  have lines : first.toList.count '\n' = 1 := by decide +kernel
  have separated := semicolon_separates 8 first (by decide +kernel)
    (.inr (by decide +kernel)) second
  rw [bytes, lines] at separated
  exact ⟨by decide +kernel, by decide +kernel, separated⟩

end Guion
