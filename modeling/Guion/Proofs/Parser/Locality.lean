import Guion.Proofs.Parser.Recursion
import Guion.Proofs.Parser.Soundness

/-!
# Parsers look one token ahead

What a clean run does is told by the tokens up to the one it ends on and the next.  With other
tokens after these it does the same, and leaves the other tokens (`Sees`).  A block and an
expression in parentheses do not even look past their closing token.

There is one instance for each production, given that the productions one level further in look one
token ahead.
-/

set_option autoImplicit false

namespace Guion.Parser

open Bounded

variable {α β : Type} {n : Nat}

/-! ## Other tokens at the end -/

/-- The state with `next` in place of the last `k` tokens. -/
def State.swap (k : Nat) (next : List Token) (s : State) : State :=
  { s with tokens := s.tokens.take (s.tokens.length - k) ++ next }

namespace State

variable {k : Nat} {next : List Token} {s : State}

theorem swap_of_append {front tail : List Token} (same : s.tokens = front ++ tail) :
    s.swap tail.length next = { s with tokens := front ++ next } := by
  rw [swap, same, List.length_append, Nat.add_sub_cancel, List.take_left]

theorem current_swap (left : k < s.tokens.length) : (s.swap k next).current = s.current := by
  cases tokens : s.tokens with
  | nil =>
    rw [tokens] at left
    cases left
  | cons t ts =>
    rw [tokens, List.length_cons] at left
    simp [swap, current, tokens, Nat.succ_sub (Nat.le_of_lt_succ left)]

theorem advance_swap (left : k < s.tokens.length) :
    (s.swap k next).advance = s.advance.swap k next := by
  cases tokens : s.tokens with
  | nil =>
    rw [tokens] at left
    cases left
  | cons t ts =>
    rw [tokens, List.length_cons] at left
    simp [swap, advance, tokens, Nat.succ_sub (Nat.le_of_lt_succ left)]

theorem peek_swap (left : k + 1 < s.tokens.length) : (s.swap k next).peek = s.peek := by
  have past : k < s.advance.tokens.length := by
    rw [tokens_advance, ahead, List.length_tail]
    omega
  have peek (s : State) : s.peek = s.advance.current := rfl
  rw [peek, advance_swap (Nat.lt_of_succ_lt left), current_swap past]
  rfl

end State

/-- The parser moves on, and what a clean run does is told by the tokens up to the one it ends on
and `n` more. -/
class Sees (n : Nat) (p : Parser α) : Prop where
  onward : Onward p
  swap : ∀ {k : Nat} (next : List Token) {s t : State} {a : α}, Clean p s a t →
    k + n < t.tokens.length → p (s.swap k next) = .ok a (t.swap k next)

/-! ## Steps -/

section Steps

variable {p : Parser α} {f : α → Parser β}

instance sees_bind [first : Sees n p] [rest : ∀ a, Sees n (f a)] : Sees n (p >>= f) where
  onward := Keeps.then first.onward fun a => (rest a).onward
  swap next s t b h left := by
    have := first.onward
    have onward a := (rest a).onward
    obtain ⟨a, u, before, after⟩ := h.bind
    have fewer := (Keeps.ok (R := State.Ahead) after.run).length_tokens_le
    exact bind_eq_ok_iff.2
      ⟨a, _, first.swap next before (Nat.lt_of_lt_of_le left fewer), (rest a).swap next after left⟩

/-- For parts that have to be split into cases first. -/
theorem Sees.then (_ : Sees n p) (_ : ∀ a, Sees n (f a)) : Sees n (p >>= f) := sees_bind

instance (a : α) : Sees n (pure a : Parser α) where
  onward := inferInstance
  swap next s t b h _ := by
    cases h.run
    rfl

instance [Sees n p] : Sees n (some <$> p) := by
  rw [map_eq_bind]
  infer_instance

instance (c : Prop) [Decidable c] {q : Parser α} [yes : Sees n p] [no : Sees n q] :
    Sees n (if c then p else q) := by
  split
  · exact yes
  · exact no

instance : Sees n (exhausted : Parser α) where
  onward := inferInstance
  swap next s t a h _ := by cases h.run

instance (pos : Position) (fault : SyntaxError.Fault) : Sees n (failAt pos fault : Parser α) where
  onward := inferInstance
  swap next s t a h _ := by cases h.run

instance : Sees n current where
  onward := inferInstance
  swap {k} next s t a h left := by
    cases h.run
    show EStateM.Result.ok (s.swap k next).current (s.swap k next) = _
    rw [State.current_swap (Nat.lt_of_le_of_lt (Nat.le_add_right k n) left)]

instance : Sees 1 peek where
  onward := inferInstance
  swap {k} next s t a h left := by
    cases h.run
    show EStateM.Result.ok (s.swap k next).peek (s.swap k next) = _
    rw [State.peek_swap left]

instance : Sees n advance where
  onward := inferInstance
  swap {k} next s t a h left := by
    cases h.run
    have more : k < s.tokens.length := by
      rw [State.tokens_advance, State.ahead, List.length_tail] at left
      omega
    rw [advance_apply, State.advance_swap more]

instance (fault : SyntaxError.Fault) : Sees 1 (failHere fault : Parser α) := sees_bind

/-- The token that is expected is the one to end on. -/
instance sees_expect (kind : Token.Kind) : Sees 0 (expect kind) where
  onward := inferInstance
  swap {k} next s t a h left := by
    obtain ⟨found, rfl⟩ := expect_eq_ok h.run
    have more : k + 1 < s.tokens.length := by
      rw [State.tokens_advance, State.ahead, List.length_tail] at left
      omega
    rw [← State.peek_swap more] at found
    rw [expect_of_kind found, State.advance_swap (Nat.lt_of_succ_lt more)]

instance (kind : Token.Kind) : Sees 1 (expect kind) := sees_bind

instance : Sees 1 expectIdentifier := sees_bind

instance : Sees 1 skipSemicolon := sees_bind

instance (limit : Nat) : Sees n (enter limit) where
  onward := inferInstance
  swap {k} next s t a h _ := by
    obtain ⟨room, rfl⟩ := enter_eq_ok h.run
    exact enter_of_lt (s := s.swap k next) room

/-- What went one level further in had room there. -/
theorem Clean.room {limit : Nat} {s t : State} {a : α} (h : Clean (Parser.nested limit p) s a t) :
    s.depth < limit := by
  obtain ⟨_, _, entered, -⟩ := bind_eq_ok_iff.1 h.run
  exact (enter_eq_ok entered).1

instance (limit : Nat) [sees : Sees n p] : Sees n (nested limit p) where
  onward := have := sees.onward; inferInstance
  swap {k} next s t a h left := by
    obtain ⟨u, inside, rfl⟩ := h.nested
    exact nested_of_ok (s := s.swap k next) h.room (sees.swap next inside left)

instance [sees : Sees n p] : Sees n (keepingDepth p) where
  onward := have := sees.onward; inferInstance
  swap next s t a h left := by
    obtain ⟨u, inside, rfl⟩ := h.keepingDepth
    exact keepingDepth_of_ok (sees.swap next inside left)

instance {p : Parser (Option α)} [sees : Sees n p] : Sees n (recovering p) where
  onward := have := sees.onward; inferInstance
  swap next s t a h left := by
    have := sees.onward
    rw [recovering, sees.swap next h.recovering left]

instance {round : Parser (Option (List α))} [Sees n round] (m : Nat) :
    Sees n (collect round m) := by
  induction m with
  | zero => exact inferInstanceAs (Sees n exhausted)
  | succ m ih =>
    refine Sees.then inferInstance fun found => ?_
    cases found <;> infer_instance

theorem Sees.weaken (sees : Sees 0 p) : Sees 1 p :=
  ⟨sees.onward, fun next _ _ _ h left => sees.swap next h (Nat.lt_of_succ_lt left)⟩

/-- Ending on the token that was next is not looking past it. -/
theorem Sees.closing (first : Sees 1 p) (rest : ∀ a, Sees 0 (f a))
    (moves : ∀ {a s b t}, f a s = .ok b t → t.tokens = s.ahead) : Sees 0 (p >>= f) where
  onward := Keeps.then first.onward fun a => (rest a).onward
  swap {k} next s t b h left := by
    have := first.onward
    have onward a := (rest a).onward
    obtain ⟨a, u, before, after⟩ := h.bind
    have more : k + 1 < u.tokens.length := by
      rw [moves after.run, State.ahead, List.length_tail] at left
      omega
    exact bind_eq_ok_iff.2 ⟨a, _, first.swap next before more, (rest a).swap next after left⟩

end Steps

/-! ## Productions -/

/-- The productions one level further in look one token ahead, and no token past a block. -/
class Productions.Sees (inner : Productions) : Prop where
  expression : ∀ power, Parser.Sees 1 (inner.expression power)
  block : Parser.Sees 0 inner.block
  conditional : ∀ token, Parser.Sees 1 (inner.conditional token)

section Productions

variable (limit bound : Nat) (inner : Productions) [sees : inner.Sees]

instance (power : BindingPower) : Sees 1 (inner.expression power) := sees.expression power

instance : Sees 0 inner.block := sees.block

instance : Sees 1 inner.block := sees.block.weaken

instance (token : Token) : Sees 1 (inner.conditional token) := sees.conditional token

omit sees in
instance (item : Parser α) [Sees 1 item] : Sees 1 (commaItem item) := sees_bind

omit sees in
instance (item : Parser α) [Sees 1 item] : Sees 1 (commaSeparated bound item) :=
  inferInstanceAs (Sees 1 (collect _ bound))

omit sees in
instance : Sees 1 (parameters bound) := sees_bind

instance : Sees 1 (functionRest bound inner) := sees_bind

instance (power : BindingPower) : Sees 1 (nextExpression inner power) := sees_bind

instance (token : Token) (op : UnaryOp) : Sees 1 (unary inner token op) := sees_bind

/-- The closing parenthesis is the token to end on. -/
instance sees_grouped : Sees 0 (grouped inner) := by
  refine Sees.closing (p := nextExpression inner .lowest) inferInstance (fun _ => sees_bind) ?_
  intro e s b t run
  obtain ⟨_, u, expected, last⟩ := bind_eq_ok_iff.1 run
  obtain ⟨-, rfl⟩ := expect_eq_ok expected
  cases last
  rfl

instance : Sees 1 (grouped inner) := (sees_grouped inner).weaken

instance : Sees 1 (alternative limit inner) :=
  Sees.then inferInstance fun next => by split <;> infer_instance

set_option synthInstance.maxSize 400 in
instance (token : Token) : Sees 1 (conditional limit inner token) := sees_bind

instance : Sees 1 (property inner) := sees_bind

instance : Sees 1 (commaProperty inner) := sees_bind

instance : Sees 1 (moreProperties bound inner) := inferInstanceAs (Sees 1 (collect _ bound))

instance : Sees 1 (properties bound inner) := sees_bind

instance (token : Token) : Sees 1 (object bound inner token) := sees_bind

instance : Sees 1 (operand limit bound inner) :=
  Sees.then inferInstance fun token => by
    split
    all_goals try split
    all_goals infer_instance

instance : Sees 1 (arguments bound inner) := sees_bind

instance (token : Token) (left : Expression) : Sees 1 (assignment inner token left) := by
  unfold assignment
  split <;> infer_instance

instance (left : Expression) : Sees 1 (extend bound inner left) :=
  Sees.then inferInstance fun token => by
    split
    · infer_instance
    · split <;> infer_instance

instance (power : BindingPower) (m : Nat) (left : Expression) :
    Sees 1 (operators limit bound inner power m left) := by
  induction m generalizing left with
  | zero => exact inferInstanceAs (Sees 1 exhausted)
  | succ m ih => exact sees_bind

instance (power : BindingPower) : Sees 1 (expression limit bound inner power) := by
  rw [expression]
  infer_instance

instance : Sees 1 (declaration inner) := sees_bind

instance : Sees 1 (resultValue inner) :=
  Sees.then inferInstance fun next => by split <;> infer_instance

instance : Sees 1 (result inner) := sees_bind

instance : Sees 1 (function bound inner) := sees_bind

instance : Sees 1 (statement bound inner) :=
  Sees.then inferInstance fun token => by split <;> infer_instance

/-- A statement looks at the token that the item ends on. -/
instance : Sees 0 (item bound inner) :=
  Sees.closing (p := recovering (statement bound inner)) inferInstance (fun _ => sees_bind)
    fun moved => by cases moved; rfl

instance (token : Token) : Sees 0 (blockItem bound inner token) :=
  Sees.then inferInstance fun _ => by split <;> infer_instance

instance : Sees 0 (block bound inner) := sees_bind

instance : (inner.next limit bound).Sees where
  expression _ := inferInstanceAs (Sees 1 (expression limit bound inner _))
  block := inferInstanceAs (Sees 0 (block bound inner))
  conditional _ := inferInstanceAs (Sees 1 (conditional limit inner _))

end Productions

instance sees_upTo (limit n : Nat) : (Productions.upTo limit n).Sees := by
  induction n with
  | zero =>
    exact ⟨fun _ => inferInstanceAs (Sees 1 exhausted), inferInstanceAs (Sees 0 exhausted),
      fun _ => inferInstanceAs (Sees 1 exhausted)⟩
  | succ n ih => exact inferInstanceAs ((Productions.upTo limit n).next limit (n + 1)).Sees

/-! ## Productions without a bound -/

/-- With a bound that is large enough for both states, the parser does the same. -/
theorem sees_unbounded {m : Nat} {p : Nat → Parser α} [onward : Onward (unbounded p)]
    [∀ n, Sees m (p n)]
    (same : ∀ n s, s.finish.kind = .endOfInput → s.tokens.length < n → p n s = unbounded p s) :
    Sees m (unbounded p) where
  onward := onward
  swap {k} next s t a h left := by
    have enough : s.tokens.length < max s.tokens.length (s.swap k next).tokens.length + 1 :=
      Nat.lt_succ_of_le (Nat.le_max_left _ _)
    have other : (s.swap k next).tokens.length <
        max s.tokens.length (s.swap k next).tokens.length + 1 :=
      Nat.lt_succ_of_le (Nat.le_max_right _ _)
    have clean := Clean.mk h.sane ((same _ s h.sane.finish enough).trans h.run) h.errors
    rw [← same _ (s.swap k next) h.sane.finish other]
    exact Sees.swap next clean left

section Whole

variable {limit : Nat}

instance : (Productions.whole limit).Sees where
  expression power := sees_unbounded (p := fun k => (Productions.upTo limit k).expression power)
    fun _ _ finish => upTo_expression finish power
  block := sees_unbounded (p := fun k => (Productions.upTo limit k).block)
    fun _ _ finish => upTo_block finish
  conditional token := sees_unbounded (p := fun k => (Productions.upTo limit k).conditional token)
    fun _ _ finish => upTo_conditional finish token

instance : (Productions.whole limit).Steady := by
  have steady (s : State) : (Productions.upTo limit (s.tokens.length + 1)).Steady := inferInstance
  refine ⟨fun power => ⟨fun s => ?_⟩, ⟨fun s => ?_⟩, fun token => ⟨fun s => ?_⟩⟩
  · exact ((steady s).expression power).final_rel s
  · exact (steady s).block.final_rel s
  · exact ((steady s).conditional token).final_rel s

instance : (Productions.whole limit).Sound where
  expression {_ s _ _} h := (sound_upTo limit (s.tokens.length + 1)).expression
    ⟨h.sane, h.run, h.errors⟩
  block {s _ _ _} h := (sound_upTo limit (s.tokens.length + 1)).block ⟨h.sane, h.run, h.errors⟩
  conditional {_ s _ _} h := (sound_upTo limit (s.tokens.length + 1)).conditional
    ⟨h.sane, h.run, h.errors⟩

end Whole

end Guion.Parser
