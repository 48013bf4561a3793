import Guion.Proofs.Parser.Balance
import Guion.Proofs.Parser.Completeness
import Guion.Proofs.Program.Depth
import Guion.Proofs.Token.Spelling
import Guion.Limits

/-!
# What the nesting limit bounds

A level of nesting is paid for by every expression, by every operator that goes on with one, and by
every `sinosi`.  With `r` levels left, a path through what is read has at most `height r`
expressions (`Yields`): an operand with the levels that are left inside it, and one more for each
operator after it.  So the limit bounds the expressions on a path through any program that is read
(`depth_parse_le`).

A declared function pays for no level, so functions declared in functions are read to any depth
(`exists_deep`).
-/

set_option autoImplicit false

namespace Guion.Parser

open Bounded Weights

variable {α β : Type} {limit r : Nat}

/-- The most expressions on a path that `r` levels of nesting have room for. -/
def height : Nat → Nat
  | 0 => 0
  | r + 1 => height r + r + 1

theorem two_mul_height (r : Nat) : 2 * height r = r * (r + 1) := by
  induction r with
  | zero => rfl
  | succ r ih =>
    rw [height]
    have expanded : (r + 1) * (r + 1 + 1) = r * (r + 1) + 2 * r + 2 := by
      simp only [Nat.add_mul, Nat.mul_add]
      omega
    omega

theorem height_eq (r : Nat) : height r = r * (r + 1) / 2 := by
  have twice := two_mul_height r
  omega

/-- With at most `r` levels left to enter, what `p` yields is in `A`. -/
def Yields (limit r : Nat) (A : α → Prop) (p : Parser α) : Prop :=
  ∀ s a t, limit ≤ s.depth + r → p s = .ok a t → A a

section Yields

variable {p : Parser α} {f : α → Parser β} {A : α → Prop} {B : β → Prop}

theorem Yields.bind [Steady p] (first : Yields limit r A p)
    (rest : ∀ a, A a → Yields limit r B (f a)) : Yields limit r B (p >>= f) := by
  intro s b t left h
  obtain ⟨a, u, h, h'⟩ := bind_eq_ok_iff.1 h
  -- the first part left the depth as it was, so as many levels are left to the rest
  have same : u.depth = s.depth := Keeps.ok (R := State.SameDepth) h
  exact rest a (first s a u left h) u b t (same ▸ left) h'

/-- Where the result of the first part does not matter. -/
theorem Yields.after [Steady p] (rest : ∀ a, Yields limit r B (f a)) : Yields limit r B (p >>= f) :=
  Yields.bind (A := fun _ => True) (fun _ _ _ _ _ => trivial) fun a _ => rest a

theorem yields_pure {a : α} (h : A a) : Yields limit r A (pure a) := by
  intro s b t _ run
  cases run
  exact h

theorem yields_fail (pos : Position) (fault : SyntaxError.Fault) :
    Yields limit r A (failAt pos fault) := by
  intro s b t _ run
  cases run

theorem yields_failHere (fault : SyntaxError.Fault) : Yields limit r A (failHere fault) :=
  Yields.after fun _ => yields_fail _ _

theorem yields_exhausted : Yields limit r A exhausted := by
  intro s b t _ run
  cases run

theorem yields_ite {c : Prop} [Decidable c] {q : Parser α} (yes : Yields limit r A p)
    (no : Yields limit r A q) : Yields limit r A (if c then p else q) := by
  split
  · exact yes
  · exact no

theorem Yields.mono {A' : α → Prop} (h : Yields limit r A p) (weaker : ∀ a, A a → A' a) :
    Yields limit r A' p :=
  fun s a t left run => weaker a (h s a t left run)

theorem Yields.map {g : α → β} [Steady p] (h : Yields limit r A p) (into : ∀ a, A a → B (g a)) :
    Yields limit r B (g <$> p) := by
  rw [map_eq_bind]
  exact h.bind fun a ha => yields_pure (into a ha)

/-- Inside a level that was entered, one level less is left. -/
theorem yields_nested (inside : ∀ k, r = k + 1 → Yields limit k A p) :
    Yields limit r A (nested limit p) := by
  intro s a t left h
  obtain ⟨_, u, entered, h⟩ := bind_eq_ok_iff.1 h
  obtain ⟨room, rfl⟩ := enter_eq_ok entered
  obtain ⟨v, run, -⟩ := ensuring_eq_ok h
  cases r with
  | zero => omega
  | succ k =>
    refine inside k rfl _ a v ?_ run
    show limit ≤ s.depth + 1 + k
    omega

theorem Yields.keepingDepth (h : Yields limit r A p) : Yields limit r A (keepingDepth p) := by
  intro s a t left run
  obtain ⟨u, run, -⟩ := ensuring_eq_ok run
  exact h s a u left run

/-- A statement that was skipped yields nothing. -/
theorem Yields.recovering {A : Option α → Prop} {p : Parser (Option α)} (h : Yields limit r A p)
    (skipped : A none) : Yields limit r A (recovering p) := by
  intro s a t left run
  rw [Parser.recovering] at run
  cases outcome : p s with
  | ok b u =>
    rw [outcome] at run
    cases run
    exact h s a t left outcome
  | error stop u =>
    rw [outcome] at run
    cases stop <;> cases run
    exact skipped

theorem yields_collect {P : α → Prop} {round : Parser (Option (List α))} [Steady round]
    (h : Yields limit r (fun found => ∀ as ∈ found, ∀ a ∈ as, P a) round) (n : Nat) :
    Yields limit r (fun as => ∀ a ∈ as, P a) (collect round n) := by
  induction n with
  | zero => exact yields_exhausted
  | succ n ih =>
    refine h.bind fun found each => ?_
    cases found with
    | none => exact yields_pure fun _ none => absurd none List.not_mem_nil
    | some found =>
      refine ih.bind fun more others => yields_pure fun a member => ?_
      rcases List.mem_append.1 member with member | member
      · exact each found rfl a member
      · exact others a member

end Yields

/-! ## Productions -/

/-- The tree has at most `k` expressions on a path. -/
def Low (k : Nat) (e : Expression) : Prop := e.depth expressions ≤ k

/-- The block has at most `k` expressions on a path. -/
def LowBlock (k : Nat) (b : Block) : Prop := b.depth expressions ≤ k

/-- The statement has at most `k` expressions on a path. -/
def LowStatement (k : Nat) (s : Statement) : Prop := s.depth expressions ≤ k

/-- The property has at most `k` expressions on a path. -/
def LowProperty (k : Nat) (p : Property) : Prop := Expression.depthOption expressions p.value ≤ k

/-- What the productions one level further in yield is as high as the levels left allow.  A
conditional is an expression that has not paid for itself. -/
class Productions.Low (limit : Nat) (inner : Productions) : Prop where
  expression : ∀ r power, Yields limit r (Parser.Low (height r)) (inner.expression power)
  block : ∀ r, Yields limit r (LowBlock (height r)) inner.block
  conditional : ∀ r token, Yields limit r (Parser.Low (height r + 1)) (inner.conditional token)

section Productions

variable {bound : Nat} {inner : Productions} [steady : inner.Steady] [low : inner.Low limit]

omit steady in
theorem yields_nextExpression (power : BindingPower) :
    Yields limit r (Low (height r)) (nextExpression inner power) :=
  Yields.after fun _ => low.expression r power

theorem yields_functionRest :
    Yields limit r (fun found => LowBlock (height r) found.2) (functionRest bound inner) :=
  Yields.after fun _ => Yields.after fun _ => Yields.after fun _ =>
    (low.block r).bind fun _ body => yields_pure body

theorem yields_unary (token : Token) (op : UnaryOp) :
    Yields limit r (Low (height r + 1)) (unary inner token op) := by
  refine (yields_nextExpression .unary).bind fun operand ho => yields_pure ?_
  simp only [Low, Expression.depth, expressions] at ho ⊢
  omega

theorem yields_grouped : Yields limit r (Low (height r + 1)) (grouped inner) :=
  (yields_nextExpression .lowest).bind fun _ he =>
    Yields.after fun _ => yields_pure (Nat.le_succ_of_le he)

/-- A chained conditional is one level further in, which pays for it. -/
theorem yields_alternative :
    Yields limit r (fun other => ∀ b ∈ other, LowBlock (height r) b) (alternative limit inner) := by
  refine Yields.after fun next => ?_
  split
  · refine Yields.after fun _ => Yields.after fun _ => (low.block r).bind fun b hb => yields_pure ?_
    rintro _ ⟨⟩
    exact hb
  · refine Yields.after fun _ => Yields.after fun token => ?_
    have chained : Yields limit r (Low (height r)) (nested limit (inner.conditional token)) := by
      refine yields_nested ?_
      rintro k rfl
      refine (low.conditional k token).mono fun e he => ?_
      simp only [Low, height] at he ⊢
      omega
    refine chained.bind fun e he => yields_pure ?_
    rintro _ ⟨⟩
    simp only [LowBlock, Low, Block.depth, Statement.depthAll, Statement.depth, expressions]
      at he ⊢
    omega
  · exact yields_pure (by simp)

theorem yields_conditional (token : Token) :
    Yields limit r (Low (height r + 1)) (conditional limit inner token) := by
  refine Yields.after fun _ => (yields_nextExpression .lowest).bind fun c hc =>
    Yields.after fun _ => Yields.after fun _ => (low.block r).bind fun b hb =>
    yields_alternative.bind fun other ho => yields_pure ?_
  have otherwise := Block.depthOption_le ho
  simp only [Low, LowBlock, Expression.depth, expressions] at hc hb otherwise ⊢
  omega

theorem yields_property : Yields limit r (LowProperty (height r)) (property inner) := by
  refine Yields.after fun key => Yields.after fun next =>
    yields_ite ?_ (yields_pure (Nat.zero_le _))
  exact Yields.after fun _ => (yields_nextExpression .lowest).bind fun _ hv => yields_pure hv

theorem yields_commaProperty :
    Yields limit r (fun found => ∀ ps ∈ found, ∀ p ∈ ps, LowProperty (height r) p)
      (commaProperty inner) := by
  refine Yields.after fun next => yields_ite ?_ (yields_pure (by simp))
  refine Yields.after fun _ => Yields.after fun _ => yields_ite (yields_pure (by simp)) ?_
  refine yields_property.bind fun p hp => yields_pure ?_
  rintro _ ⟨⟩ q member
  rw [List.mem_singleton.1 member]
  exact hp

theorem yields_object (token : Token) :
    Yields limit r (Low (height r + 1)) (object bound inner token) := by
  have found : Yields limit r (fun ps => ∀ p ∈ ps, LowProperty (height r) p)
      (properties bound inner) := by
    refine Yields.after fun next => yields_ite (yields_pure (by simp)) ?_
    refine yields_property.bind fun first hf =>
      (yields_collect yields_commaProperty bound).bind fun more hm => yields_pure ?_
    exact List.forall_mem_cons.2 ⟨hf, hm⟩
  refine found.bind fun ps hp => Yields.after fun _ => yields_pure ?_
  have listed := Property.depthAll_le hp
  simp only [Low, Expression.depth, expressions] at listed ⊢
  omega

theorem yields_operand : Yields limit r (Low (height r + 1)) (operand limit bound inner) := by
  have leaf {e : Expression} (h : e.depth expressions = 1) :
      Yields limit r (Low (height r + 1)) (pure e) := by
    refine yields_pure ?_
    rw [Low, h]
    exact Nat.le_add_left 1 _
  refine Yields.after fun token => ?_
  split
  · exact leaf rfl
  · split
    · exact leaf rfl
    · exact yields_failHere _
  · split
    · exact leaf rfl
    · exact yields_failHere _
  · exact leaf rfl
  · exact leaf rfl
  · exact leaf rfl
  · exact yields_unary token .not
  · exact yields_unary token .negate
  · exact yields_grouped
  · refine yields_functionRest.bind fun found body => yields_pure ?_
    simp only [Low, LowBlock, Expression.depth, expressions] at body ⊢
    omega
  · exact yields_conditional token
  · exact yields_object token
  · exact yields_failHere _
  · exact yields_failHere _

theorem yields_arguments :
    Yields limit r (fun values => ∀ e ∈ values, Low (height r) e) (arguments bound inner) := by
  refine Yields.after fun next => yields_ite (Yields.after fun _ => yields_pure (by simp)) ?_
  have item : Yields limit r (fun found => ∀ es ∈ found, ∀ e ∈ es, Low (height r) e)
      (commaItem (nextExpression inner .lowest)) := by
    refine Yields.after fun _ => yields_ite ?_ (yields_pure (by simp))
    refine Yields.after fun _ => (yields_nextExpression .lowest).bind fun e he => yields_pure ?_
    rintro _ ⟨⟩ q member
    rw [List.mem_singleton.1 member]
    exact he
  refine (yields_nextExpression .lowest).bind fun first hf =>
    (yields_collect item bound).bind fun more hm => Yields.after fun _ => yields_pure ?_
  exact List.forall_mem_cons.2 ⟨hf, hm⟩

/-- An operator goes on with an expression by one more, over the higher of its operands. -/
theorem yields_extend {m : Nat} {left : Expression} (h : Low m left) :
    Yields limit r (Low (max m (height r) + 1)) (extend bound inner left) := by
  have member (token : Token) (name : Identifier) :
      Low (max m (height r) + 1) (.member token left (.identifier name) false) := by
    have positive := left.depth_expressions_pos
    simp only [Low, Expression.depth, expressions] at h positive ⊢
    omega
  refine Yields.after fun token => ?_
  split
  · refine (yields_nextExpression _).bind fun right hr => yields_pure ?_
    simp only [Low, Expression.depth, expressions] at h hr ⊢
    omega
  · split
    · unfold assignment
      split
      · refine (yields_nextExpression .lowest).bind fun value hv => yields_pure ?_
        simp only [Low, Expression.depth, expressions] at hv ⊢
        omega
      · exact yields_failHere _
    · refine yields_arguments.bind fun values hv => yields_pure ?_
      have listed := Expression.depthAll_le hv
      simp only [Low, Expression.depth, expressions] at h listed ⊢
      omega
    · exact Yields.after fun name => yields_pure (member token name)
    · refine (yields_nextExpression .lowest).bind fun key hk => Yields.after fun _ => yields_pure ?_
      simp only [Low, Expression.depth, expressions] at h hk ⊢
      omega
    · refine yields_pure ?_
      simp only [Low] at h ⊢
      omega

/-- Each operator of the loop uses a level up, so there are at most as many as levels left. -/
theorem yields_operators (power : BindingPower) (n : Nat) : ∀ (r m : Nat) (left : Expression),
    Low m left → Yields limit r (Low (max m (height r) + r))
      (operators limit bound inner power n left) := by
  induction n with
  | zero => exact fun _ _ _ _ => yields_exhausted
  | succ n ih =>
    intro r m left h
    refine Yields.after fun next => yields_ite ?_ (yields_pure ?_)
    · intro s e t room run
      obtain ⟨_, u, entered, run⟩ := bind_eq_ok_iff.1 run
      obtain ⟨free, rfl⟩ := enter_eq_ok entered
      cases r with
      | zero => omega
      | succ k =>
        have further : Yields limit k (Low (max (max m (height k) + 1) (height k) + k))
            (do advance; let wider ← extend bound inner left
                operators limit bound inner power n wider) :=
          Yields.after fun _ => (yields_extend h).bind fun wider hw => ih k _ wider hw
        have found := further _ e t (by show limit ≤ s.depth + 1 + k; omega) run
        simp only [Low, height] at found ⊢
        omega
    · simp only [Low] at h ⊢
      omega

theorem yields_expression (power : BindingPower) :
    Yields limit r (Low (height r)) (expression limit bound inner power) := by
  refine yields_nested ?_
  rintro k rfl
  refine yields_operand.bind fun left hl =>
    ((yields_operators power bound k _ left hl).mono fun e he => ?_).keepingDepth
  simp only [Low, height] at he ⊢
  omega

theorem yields_declaration : Yields limit r (LowStatement (height r)) (declaration inner) := by
  refine Yields.after fun token => Yields.after fun name => Yields.after fun next =>
    yields_ite ?_ ?_
  · refine Yields.after fun _ => (yields_nextExpression .lowest).bind fun value hv =>
      Yields.after fun _ => yields_pure ?_
    simp only [LowStatement, Low, Statement.depth, Expression.depthOption, expressions] at hv ⊢
    omega
  · refine Yields.after fun _ => yields_ite (yields_fail _ _) (yields_pure ?_)
    exact Nat.zero_le _

theorem yields_result : Yields limit r (LowStatement (height r)) (result inner) := by
  have value : Yields limit r (fun value => Expression.depthOption expressions value ≤ height r)
      (resultValue inner) := by
    refine Yields.after fun next => ?_
    split
    iterate 3 exact yields_pure (Nat.zero_le _)
    exact (yields_nextExpression .lowest).map fun _ hv => hv
  refine Yields.after fun token => value.bind fun value hv => Yields.after fun _ => yields_pure ?_
  simp only [LowStatement, Statement.depth, expressions] at hv ⊢
  omega

/-- A declared function pays for no level: its body is as high as the levels left outside. -/
theorem yields_function : Yields limit r (LowStatement (height r)) (function bound inner) := by
  refine Yields.after fun token => Yields.after fun name => yields_functionRest.bind fun found hb =>
    Yields.after fun _ => yields_pure ?_
  simp only [LowStatement, LowBlock, Statement.depth, expressions] at hb ⊢
  omega

theorem yields_statement :
    Yields limit r (fun found => ∀ s ∈ found, LowStatement (height r) s)
      (statement bound inner) := by
  have found {p : Parser Statement} [Steady p] (h : Yields limit r (LowStatement (height r)) p) :
      Yields limit r (fun found => ∀ s ∈ found, LowStatement (height r) s) (some <$> p) := by
    refine h.map fun s hs => ?_
    rintro _ ⟨⟩
    exact hs
  refine Yields.after fun token => ?_
  split
  · exact yields_pure (by simp)
  · exact found yields_declaration
  · exact found yields_declaration
  · exact found yields_result
  · refine Yields.after fun next => yields_ite (found yields_function) ?_
    refine (low.expression r .lowest).bind fun value hv => Yields.after fun _ => yields_pure ?_
    rintro _ ⟨⟩
    simp only [LowStatement, Low, Statement.depth, expressions] at hv ⊢
    omega

theorem yields_item :
    Yields limit r (fun found => ∀ s ∈ found, LowStatement (height r) s) (item bound inner) := by
  refine (yields_statement.recovering (by simp)).bind fun found hf => Yields.after fun _ =>
    yields_pure fun s member => hf s (Option.mem_toList.1 member)

theorem yields_block : Yields limit r (LowBlock (height r)) (block bound inner) := by
  have round (token : Token) : Yields limit r
      (fun found => ∀ ss ∈ found, ∀ s ∈ ss, LowStatement (height r) s)
      (blockItem bound inner token) := by
    refine Yields.after fun next => ?_
    split
    · exact yields_pure (by simp)
    · exact yields_fail _ _
    · refine yields_item.bind fun found hf => yields_pure ?_
      rintro _ ⟨⟩
      exact hf
  refine Yields.after fun token => Yields.after fun _ =>
    (yields_collect (round token) bound).bind fun ss hs => yields_pure ?_
  have listed := Statement.depthAll_le hs
  simp only [LowBlock, Block.depth, expressions] at listed ⊢
  omega

instance : (inner.next limit bound).Low limit where
  expression _ power := yields_expression power
  block _ := yields_block
  conditional _ token := yields_conditional token

end Productions

instance low_upTo (limit n : Nat) : (Productions.upTo limit n).Low limit := by
  induction n with
  | zero =>
    exact ⟨fun _ _ => yields_exhausted, fun _ => yields_exhausted, fun _ _ => yields_exhausted⟩
  | succ n ih => exact inferInstanceAs (((Productions.upTo limit n).next limit (n + 1)).Low limit)

theorem yields_program (limit : Nat) :
    Yields limit limit (fun p => ∀ s ∈ p, LowStatement (height limit) s) (program limit) := by
  have round (bound n : Nat) : Yields limit limit
      (fun found => ∀ ss ∈ found, ∀ s ∈ ss, LowStatement (height limit) s)
      (programItem bound (Productions.upTo limit n)) := by
    refine Yields.after fun next => ?_
    split
    · exact yields_pure (by simp)
    · refine yields_item.bind fun found hf => yields_pure ?_
      rintro _ ⟨⟩
      exact hf
  exact Yields.after fun s => yields_collect (round _ _) _

/-! ## Functions in functions -/

/-- The tokens are `n` functions, each declared in the one before, and then `rest`. -/
inductive Tower : Nat → List Token → List Token → Prop where
  | nothing {rest : List Token} : Tower 0 rest rest
  | function {n : Nat} {func name left right opening closing : Token} {ts rest : List Token}
      (func_kind : func.kind = .func) (name_kind : name.kind = .identifier)
      (left_kind : left.kind = .leftParen) (right_kind : right.kind = .rightParen)
      (opening_kind : opening.kind = .leftCurly) (inside : Tower n ts (closing :: rest))
      (closing_kind : closing.kind = .rightCurly) :
      Tower (n + 1) (func :: name :: left :: right :: opening :: ts) rest

section Onto

variable {bound : Nat} {inner : Productions} {s : State} {last t : Token} {ts : List Token}

theorem State.current_onto (s : State) (t : Token) (ts : List Token) :
    (s.onto (t :: ts)).current = t := rfl

theorem State.peek_onto (s : State) (t u : Token) (ts : List Token) :
    (s.onto (t :: u :: ts)).peek = u := rfl

theorem expect_onto {kind : Token.Kind} (h : t.kind = kind) :
    expect kind (s.onto (last :: t :: ts)) = .ok () (s.onto (t :: ts)) :=
  expect_of_kind (s := s.onto (last :: t :: ts)) h

theorem expectIdentifier_onto (h : t.kind = .identifier) :
    expectIdentifier (s.onto (last :: t :: ts)) = .ok (.ofToken t) (s.onto (t :: ts)) := by
  rw [expectIdentifier, bind_of_ok (expect_onto h)]
  rfl

theorem parameters_onto (h : t.kind = .rightParen) :
    parameters bound (s.onto (last :: t :: ts)) = .ok [] (s.onto (t :: ts)) := by
  have next : (s.onto (last :: t :: ts)).peek.kind = .rightParen := h
  rw [parameters, peek_bind, if_pos next]
  rfl

theorem skipSemicolon_of_ne (h : s.peek.kind ≠ .semicolon) : skipSemicolon s = .ok () s := by
  rw [skipSemicolon_apply, if_neg h]

/-- A declared function without parameters is read once its body is. -/
theorem statement_onto_function (bound : Nat) {func name left right opening : Token}
    {body : Block} {u : State}
    (func_kind : func.kind = .func) (name_kind : name.kind = .identifier)
    (left_kind : left.kind = .leftParen) (right_kind : right.kind = .rightParen)
    (opening_kind : opening.kind = .leftCurly)
    (run : inner.block (s.onto (opening :: ts)) = .ok body u) (ended : u.peek.kind ≠ .semicolon) :
    statement bound inner (s.onto (func :: name :: left :: right :: opening :: ts)) =
      .ok (some (.function func (.ofToken name) [] body)) u := by
  have rest : functionRest bound inner (s.onto (name :: left :: right :: opening :: ts)) =
      .ok ([], body) u := by
    rw [functionRest, bind_of_ok (expect_onto left_kind), bind_of_ok (parameters_onto right_kind),
      bind_of_ok (expect_onto opening_kind), bind_of_ok run]
    rfl
  have here : (s.onto (func :: name :: left :: right :: opening :: ts)).current.kind = .func :=
    func_kind
  rw [statement_of_func here name_kind]
  refine map_some_of_ok ?_
  rw [function, current_bind, bind_of_ok (expectIdentifier_onto name_kind), bind_of_ok rest]
  show (skipSemicolon >>= _) u = _
  rw [bind_of_ok (skipSemicolon_of_ne ended)]
  rfl

end Onto

/-- Items stop at the brace that closes their block. -/
theorem collect_onto_closing {bound k : Nat} {inner : Productions} {s : State} {closing : Token}
    {ts : List Token} (token : Token) (kind : closing.kind = .rightCurly) :
    collect (blockItem bound inner token) (k + 1) (s.onto (closing :: ts)) =
      .ok [] (s.onto (closing :: ts)) := by
  have here : (s.onto (closing :: ts)).current.kind = .rightCurly := kind
  rw [collect, bind_of_ok (blockItem_of_rightCurly token here)]
  rfl

/-- A block that holds a tower is read at any depth, with a unit of the bound for each function. -/
theorem block_of_tower (limit : Nat) {n : Nat} : ∀ {ts rest : List Token} {closing : Token},
    Tower n ts (closing :: rest) → closing.kind = .rightCurly → ∀ (k : Nat), n ≤ k →
    ∀ (s : State) (opening : Token), ∃ ss,
      (Productions.upTo limit (k + 1)).block (s.onto (opening :: ts)) =
        .ok (.mk opening ss) (s.onto (closing :: rest)) ∧ 2 * n ≤ Statement.depthAll nodes ss := by
  induction n with
  | zero =>
    rintro _ rest closing ⟨⟩ kind k enough s opening
    refine ⟨[], ?_, Nat.zero_le _⟩
    show (collect (blockItem _ _ opening) (k + 1) >>= _) (s.onto (closing :: rest)) = _
    rw [bind_of_ok (collect_onto_closing opening kind)]
    rfl
  | succ n ih =>
    rintro _ rest closing (_ | ⟨func_kind, name_kind, left_kind, right_kind, opening_kind, inside,
      closing_kind⟩) kind k enough s opening
    rename_i func name left right brace last ts
    obtain ⟨k, rfl⟩ : ∃ j, k = j + 1 := ⟨k - 1, by omega⟩
    obtain ⟨ss, run, deep⟩ := ih inside closing_kind k (by omega) s brace
    have ended : (s.onto (last :: closing :: rest)).peek.kind ≠ .semicolon := by
      show closing.kind ≠ _
      rw [kind]
      decide
    have here : (s.onto (func :: name :: left :: right :: brace :: ts)).current.kind = .func :=
      func_kind
    have read := item_of_ok (statement_onto_function (k + 2) func_kind name_kind left_kind
      right_kind opening_kind run ended)
    -- the function is the only item: the next token closes the block
    have round := (blockItem_of_ne opening (by rw [here]; decide) (by rw [here]; decide)).trans
      (map_some_of_ok read)
    refine ⟨[.function func (.ofToken name) [] (.mk brace ss)], ?_, ?_⟩
    · show (collect (blockItem _ _ opening) _ >>= _) (s.onto (func :: _)) = _
      rw [bind_of_ok (collect_go round (collect_onto_closing opening kind))]
      rfl
    · simp only [Statement.depthAll, Statement.depth, Block.depth, nodes] at deep ⊢
      omega

theorem Tower.length_le {n : Nat} {ts rest : List Token} (h : Tower n ts rest) :
    n + rest.length ≤ ts.length := by
  induction h with
  | nothing => omega
  | function _ _ _ _ _ _ _ ih =>
    simp only [List.length_cons] at ih ⊢
    omega

/-- A tower is read as a program without errors, whatever the nesting limit. -/
theorem program_of_tower (limit : Nat) {n : Nat} {ts : List Token} (h : Tower (n + 1) ts [])
    {s : State} (finish : s.finish.kind = .endOfInput) :
    ∃ p : Program, program limit (s.onto ts) = .ok p (s.onto []) ∧ 2 * n < p.depth nodes := by
  have long := h.length_le
  obtain _ | ⟨func_kind, name_kind, left_kind, right_kind, opening_kind, inside, closing_kind⟩ := h
  rename_i func name left right brace last ts
  obtain ⟨ss, run, deep⟩ := block_of_tower limit inside closing_kind
    (func :: name :: left :: right :: brace :: ts).length (by omega) s brace
  have ended : (s.onto [last]).peek.kind ≠ .semicolon := by
    show s.finish.kind ≠ _
    rw [finish]
    decide
  have here : (s.onto (func :: name :: left :: right :: brace :: ts)).current.kind = .func :=
    func_kind
  have read := item_of_ok (statement_onto_function
    ((func :: name :: left :: right :: brace :: ts).length + 2) func_kind name_kind
    left_kind right_kind opening_kind run ended)
  have round := (programItem_of_ne (by rw [here]; decide)).trans (map_some_of_ok read)
  have stop : programItem ((func :: name :: left :: right :: brace :: ts).length + 2)
      (Productions.upTo limit ((func :: name :: left :: right :: brace :: ts).length + 1))
      (s.onto []) = .ok none (s.onto []) :=
    programItem_of_endOfInput finish
  refine ⟨[.function func (.ofToken name) [] (.mk brace ss)], ?_, ?_⟩
  · refine collect_go round (?_ : collect _ (_ + 1) (s.onto []) = _)
    rw [collect, bind_of_ok stop]
    rfl
  · simp only [Program.depth, Statement.depthAll, Statement.depth, Block.depth, nodes] at deep ⊢
    omega

end Guion.Parser

namespace Guion

open Guion.Parser

/-- The text of `n` functions, each declared in the one before. -/
def tower : Nat → String
  | 0 => ""
  | n + 1 => "func f() \x7b" ++ tower n ++ "\x7d"

theorem tokensAt_tower (n : Nat) : ∀ (rest : List Char) (pos : Position), ∃ after,
    Tower n (tokensAt pos ((tower n).toList ++ rest)) (tokensAt after rest) := by
  induction n with
  | zero => exact fun rest pos => ⟨pos, .nothing⟩
  | succ n ih =>
    intro rest pos
    have spelled : (tower (n + 1)).toList ++ rest =
        "func".toList ++ ' ' :: ("f".toList ++ '(' :: ')' :: ' ' :: '\x7b' ::
          ((tower n).toList ++ '\x7d' :: rest)) := by
      simp [tower]
    rw [spelled, tokensAt_keyword "func" rfl (by rintro _ ⟨⟩; rfl), tokensAt_space rfl,
      tokensAt_word (show "f".toList ≠ [] by decide) (List.all_eq_true.1 (by decide))
        (by rintro _ ⟨⟩; rfl),
      tokensAt_mark '(' rfl (by decide), tokensAt_mark ')' rfl (by decide), tokensAt_space rfl,
      tokensAt_mark '\x7b' rfl (by decide)]
    obtain ⟨after, inside⟩ := ih ('\x7d' :: rest) _
    rw [tokensAt_mark '\x7d' rfl (by decide)] at inside
    exact ⟨_, .function rfl rfl rfl rfl rfl inside rfl⟩

/-- However few levels of nesting are allowed, functions nest without bound. -/
theorem exists_deep (limit bound : Nat) : ∃ source,
    (parse limit source).errors = [] ∧ bound < (parse limit source).program.depth .nodes := by
  obtain ⟨after, h⟩ := tokensAt_tower (bound + 1) [] .start
  rw [List.append_nil, tokensAt_start] at h
  have none : tokensAt after [] = [] := Cursor.scan_nil after
  rw [none] at h
  obtain ⟨p, run, deep⟩ := program_of_tower limit h
    (s := State.ofScanned (scan (tower (bound + 1)))) (kind_finish_scan _)
  refine ⟨tower (bound + 1), ?_⟩
  rw [parse, Scanned.parse, EStateM.run]
  have run : program limit (State.ofScanned (scan (tower (bound + 1)))) = .ok p _ := run
  rw [run]
  exact ⟨rfl, by show bound < p.depth .nodes; omega⟩

/-- The expressions on a path through a program that was read are bounded by the nesting limit. -/
theorem depth_parse_le (limit : Nat) (source : String) :
    (parse limit source).program.depth .expressions ≤ limit * (limit + 1) / 2 := by
  obtain ⟨p, t, run⟩ := program_eq_ok limit (State.sane_ofScanned source).finish
  have low := yields_program limit _ p t (Nat.le_add_left _ _) run
  rw [parse, Scanned.parse, EStateM.run, run, ← height_eq]
  exact Statement.depthAll_le low

/-- The nesting limit bounds the nodes on a path through a program by the functions declared on it;
the functions themselves it does not bound. -/
theorem nesting_bounds_all_but_functions (limit : Nat) :
    (∀ source, (parse limit source).program.depth .nodes ≤
      3 * (limit * (limit + 1) / 2) + 2 * (parse limit source).program.depth .functions + 1) ∧
    ∀ bound, ∃ source, (parse limit source).errors = [] ∧
      bound < (parse limit source).program.depth .nodes := by
  refine ⟨fun source => ?_, exists_deep limit⟩
  have nodes := (parse limit source).program.nodes_le
  have expressions := depth_parse_le limit source
  omega

/-- No bound on the nodes on a path comes from the nesting limit alone. -/
theorem nesting_bounds_no_depth :
    ¬ ∀ limit, ∃ bound, ∀ source, (parse limit source).program.depth .nodes ≤ bound := by
  intro bounded
  obtain ⟨bound, low⟩ := bounded ({} : Limits).nesting
  obtain ⟨source, -, deep⟩ := exists_deep ({} : Limits).nesting bound
  exact absurd (low source) (Nat.not_le.2 deep)

end Guion
