import Guion.Proofs.Parser.Nesting
import Mathlib.Order.Bounds.Defs

/-!
# The highest programs that a nesting limit allows

A limit of `n` levels allows `n * (n + 1) / 2` expressions on a path, and no fewer: the bound of
`depth_parse_le` is reached (`height_isGreatest`).  The levels that operators use up are given back
when their expression ends, so they are there again around it.  A `staircase` uses this at every
level: an object with a staircase of one level less inside it, followed by as many members as there
are levels left next to it.
-/

set_option autoImplicit false

namespace Guion

/-- A name taken out of what stands before it, `n` times. -/
def members : Nat → String
  | 0 => ""
  | n + 1 => ".x" ++ members n

/-- Objects in objects, each followed by as many members as fit into `n` levels of nesting. -/
def staircase : Nat → String
  | 0 => ""
  | 1 => "a"
  | n + 2 => "\x7ba: " ++ staircase (n + 1) ++ "\x7d" ++ members (n + 1)

namespace Parser

open Bounded Weights

/-! ## Tokens -/

/-- The tokens are `n` members, each after a dot, and then `rest`. -/
inductive Members : Nat → List Token → List Token → Prop where
  | nothing {rest : List Token} : Members 0 rest rest
  | name {n : Nat} {dot name : Token} {ts rest : List Token} (dot_kind : dot.kind = .dot)
      (name_kind : name.kind = .identifier) (more : Members n ts rest) :
      Members (n + 1) (dot :: name :: ts) rest

/-- The tokens are a staircase that needs `n + 1` levels, and then `rest`. -/
inductive Stairs : Nat → List Token → List Token → Prop where
  | name {name : Token} {rest : List Token} (name_kind : name.kind = .identifier) :
      Stairs 0 (name :: rest) rest
  | object {n : Nat} {opening key colon closing : Token} {ts us rest : List Token}
      (opening_kind : opening.kind = .leftCurly) (key_kind : key.kind = .identifier)
      (colon_kind : colon.kind = .colon) (inside : Stairs n ts (closing :: us))
      (closing_kind : closing.kind = .rightCurly) (after : Members (n + 1) us rest) :
      Stairs (n + 1) (opening :: key :: colon :: ts) rest

theorem Stairs.length_lt {n : Nat} {ts rest : List Token} (h : Stairs n ts rest) :
    n + rest.length < ts.length := by
  have shorter {k : Nat} {us rest : List Token} (h : Members k us rest) :
      rest.length ≤ us.length := by
    induction h with
    | nothing => exact Nat.le_refl _
    | name _ _ _ ih =>
      simp only [List.length_cons]
      omega
  induction h with
  | name _ =>
    simp only [List.length_cons]
    omega
  | object _ _ _ _ _ after ih =>
    have fewer := shorter after
    simp only [List.length_cons] at ih ⊢
    omega

/-- A staircase starts with a name or with an object. -/
theorem Stairs.exists_cons {n : Nat} {ts rest : List Token} (h : Stairs n ts rest) :
    ∃ t us, ts = t :: us ∧ (t.kind = .identifier ∨ t.kind = .leftCurly) := by
  cases h with
  | name name_kind => exact ⟨_, _, rfl, .inl name_kind⟩
  | object opening_kind => exact ⟨_, _, rfl, .inr opening_kind⟩

/-! ## Reading a staircase -/

variable {limit bound : Nat} {inner : Productions} {s : State}

/-- The next token does not go on with an expression. -/
def State.EndsBefore (s : State) (rest : List Token) : Prop :=
  ¬ BindingPower.lowest < .ofKind (rest.headD s.finish).kind

/-- Taking a name out of an expression makes it higher by one. -/
theorem depth_member {left : Expression} (token : Token) (name : Identifier) :
    (Expression.member token left (.identifier name) false).depth expressions =
      left.depth expressions + 1 := by
  have positive := left.depth_expressions_pos
  simp only [Expression.depth, expressions] at positive ⊢
  omega

/-- An object with one value is higher than the value by one. -/
theorem depth_object (token : Token) (key : Identifier) (value : Expression) :
    (Expression.object token [.mk key (some value)]).depth expressions =
      value.depth expressions + 1 := by
  simp only [Expression.depth, Property.depthAll, Expression.depthOption, expressions]
  omega

/-- Members are taken one by one, each of them one level deeper. -/
theorem operators_of_members (bound : Nat) (inner : Productions) {n : Nat} :
    ∀ (last : Token) (left : Expression) (s : State) {us rest : List Token} {rounds : Nat},
    Members n us rest → s.EndsBefore rest → s.depth + n ≤ limit → n < rounds → ∃ e final depth,
      operators limit bound inner .lowest rounds left (s.onto (last :: us)) =
        .ok e { s.onto (final :: rest) with depth } ∧
      e.depth expressions = left.depth expressions + n := by
  induction n with
  | zero =>
    rintro last left s us _ rounds ⟨⟩ ends - enough
    obtain ⟨rounds, rfl⟩ : ∃ k, rounds = k + 1 := ⟨rounds - 1, by omega⟩
    exact ⟨left, last, s.depth, operators_of_not_lt (s := s.onto (last :: us)) ends, rfl⟩
  | succ n ih =>
    rintro last left s _ rest rounds (_ | ⟨dot_kind, name_kind, more⟩) ends room enough
    rename_i dot name us
    obtain ⟨rounds, rfl⟩ : ∃ k, rounds = k + 1 := ⟨rounds - 1, by omega⟩
    let deeper : State := { s with depth := s.depth + 1 }
    have binds : BindingPower.lowest < .ofKind (s.onto (last :: dot :: name :: us)).peek.kind := by
      rw [State.peek_onto, dot_kind]
      decide
    have entered : enter limit (s.onto (last :: dot :: name :: us)) =
        .ok () (deeper.onto (last :: dot :: name :: us)) :=
      enter_of_lt (s := s.onto _) (by show s.depth < limit; omega)
    have taken : extend bound inner left (deeper.onto (dot :: name :: us)) =
        .ok (.member dot left (.identifier (.ofToken name)) false)
          (deeper.onto (name :: us)) := by
      rw [extend, current_bind, State.current_onto]
      simp only [dot_kind]
      show (expectIdentifier >>= _) _ = _
      rw [bind_of_ok (expectIdentifier_onto name_kind)]
      rfl
    obtain ⟨e, final, depth, run, height⟩ := ih name
      (.member dot left (.identifier (.ofToken name)) false) deeper more ends
      (by show s.depth + 1 + n ≤ limit; omega) (Nat.lt_of_succ_lt_succ enough)
    refine ⟨e, final, depth, ?_, ?_⟩
    · rw [operators, peek_bind, if_pos binds, bind_of_ok entered, advance_bind]
      show (extend bound inner left >>= _) (deeper.onto (dot :: name :: us)) = _
      rw [bind_of_ok taken]
      exact run
    · rw [height, depth_member]
      omega

/-- An object with one value is read once the value is. -/
theorem object_of_value {opening key colon closing last : Token} {ts us : List Token}
    {value : Expression} (key_kind : key.kind = .identifier) (colon_kind : colon.kind = .colon)
    (closing_kind : closing.kind = .rightCurly)
    (run : inner.expression .lowest (s.onto ts) = .ok value (s.onto (last :: closing :: us))) :
    object (bound + 1) inner opening (s.onto (opening :: key :: colon :: ts)) =
      .ok (.object opening [.mk (.ofToken key) (some value)]) (s.onto (closing :: us)) := by
  have first : property inner (s.onto (opening :: key :: colon :: ts)) =
      .ok (.mk (.ofToken key) (some value)) (s.onto (last :: closing :: us)) := by
    rw [property, bind_of_ok (expectIdentifier_onto key_kind), peek_bind, State.peek_onto,
      if_pos colon_kind, advance_bind]
    show (nextExpression inner .lowest >>= _) (s.onto (colon :: ts)) = _
    have next : nextExpression inner .lowest (s.onto (colon :: ts)) =
        .ok value (s.onto (last :: closing :: us)) := run
    rw [bind_of_ok next]
    rfl
  have others : moreProperties (bound + 1) inner (s.onto (last :: closing :: us)) =
      .ok [] (s.onto (last :: closing :: us)) := by
    have stop : commaProperty inner (s.onto (last :: closing :: us)) =
        .ok none (s.onto (last :: closing :: us)) := by
      rw [commaProperty, peek_bind, State.peek_onto, if_neg (by rw [closing_kind]; decide)]
      rfl
    rw [moreProperties, collect, bind_of_ok stop]
    rfl
  have found : properties (bound + 1) inner (s.onto (opening :: key :: colon :: ts)) =
      .ok [.mk (.ofToken key) (some value)] (s.onto (last :: closing :: us)) := by
    rw [properties, peek_bind, State.peek_onto, if_neg (by rw [key_kind]; decide),
      bind_of_ok first, bind_of_ok others]
    rfl
  rw [object, bind_of_ok found, bind_of_ok (expect_onto closing_kind)]
  rfl

/-- An operand and the members taken out of it, one level deeper than before. -/
theorem expression_of_operand {n : Nat} {ts us rest : List Token} (last : Token)
    (left : Expression) (room : s.depth + (n + 1) ≤ limit)
    (run : operand limit bound inner ({ s with depth := s.depth + 1 }.onto ts) =
      .ok left ({ s with depth := s.depth + 1 }.onto (last :: us)))
    (after : Members n us rest) (ends : s.EndsBefore rest) (enough : n < bound) :
    ∃ e stop, expression limit bound inner .lowest (s.onto ts) = .ok e (s.onto (stop :: rest)) ∧
      e.depth expressions = left.depth expressions + n := by
  let deeper : State := { s with depth := s.depth + 1 }
  obtain ⟨e, stop, depth, taken, height⟩ := operators_of_members bound inner last left deeper
    after ends (by show s.depth + 1 + n ≤ limit; omega) enough
  refine ⟨e, stop, ?_, height⟩
  have both : (do
      let left ← operand limit bound inner
      keepingDepth (operators limit bound inner .lowest bound left) : Parser Expression)
        (deeper.onto ts) = .ok e (deeper.onto (stop :: rest)) := by
    rw [bind_of_ok run]
    -- the levels of the operators are given back here
    exact keepingDepth_of_ok taken
  exact nested_of_ok (s := s.onto ts) (by show s.depth < limit; omega) both

/-- A staircase is read wherever its levels are left, and is as high as they allow. -/
theorem expression_of_stairs {n : Nat} {ts rest : List Token} (h : Stairs n ts rest) :
    ∀ (k : Nat) (s : State), n ≤ k → s.depth + (n + 1) ≤ limit → s.EndsBefore rest → ∃ e stop,
      (Productions.upTo limit (k + 1)).expression .lowest (s.onto ts) =
        .ok e (s.onto (stop :: rest)) ∧ e.depth expressions = height (n + 1) := by
  induction h with
  | @name name rest name_kind =>
    intro k s _ room ends
    refine expression_of_operand name (.identifier (.ofToken name)) room ?_
      .nothing ends (Nat.zero_lt_succ k)
    rw [operand, current_bind, State.current_onto]
    simp only [name_kind]
    rfl
  | @object n opening key colon closing ts us rest opening_kind key_kind colon_kind inside
      closing_kind after ih =>
    intro k s enough room ends
    obtain ⟨k, rfl⟩ : ∃ j, k = j + 1 := ⟨k - 1, by omega⟩
    let deeper : State := { s with depth := s.depth + 1 }
    have closes : deeper.EndsBefore (closing :: us) := by
      show ¬ BindingPower.lowest < .ofKind closing.kind
      rw [closing_kind]
      decide
    obtain ⟨value, last, run, high⟩ := ih k deeper (by omega)
      (by show s.depth + 1 + (n + 1) ≤ limit; omega) closes
    have found : operand limit (k + 1 + 1) (Productions.upTo limit (k + 1))
        (deeper.onto (opening :: key :: colon :: ts)) =
          .ok (.object opening [.mk (.ofToken key) (some value)])
            (deeper.onto (closing :: us)) := by
      rw [operand, current_bind, State.current_onto]
      simp only [opening_kind]
      exact object_of_value key_kind colon_kind closing_kind run
    obtain ⟨e, stop, read, above⟩ := expression_of_operand _ _ room found after ends (by omega)
    refine ⟨e, stop, read, ?_⟩
    rw [above, depth_object, high]
    show height (n + 1) + 1 + (n + 1) = height (n + 1) + (n + 1) + 1
    omega

/-- A staircase alone is a program of one statement. -/
theorem program_of_stairs {n : Nat} {ts : List Token} (h : Stairs n ts [])
    (finish : s.finish.kind = .endOfInput) (room : s.depth + (n + 1) ≤ limit) :
    ∃ p : Program, program limit (s.onto ts) = .ok p (s.onto []) ∧
      p.depth expressions = height (n + 1) := by
  obtain ⟨token, us, rfl, starts⟩ := h.exists_cons
  have long := h.length_lt
  have ends : s.EndsBefore [] := by
    show ¬ BindingPower.lowest < .ofKind s.finish.kind
    rw [finish]
    decide
  obtain ⟨e, stop, run, high⟩ := expression_of_stairs h (token :: us).length s (by omega) room ends
  have other {kind : Token.Kind} (different : kind ≠ .identifier ∧ kind ≠ .leftCurly) :
      (s.onto (token :: us)).current.kind ≠ kind := by
    rintro rfl
    exact starts.elim different.1 different.2
  have ended : skipSemicolon (s.onto [stop]) = .ok () (s.onto [stop]) :=
    skipSemicolon_of_ne (by show s.finish.kind ≠ _; rw [finish]; decide)
  have read (bound : Nat) : statement bound (Productions.upTo limit ((token :: us).length + 1))
      (s.onto (token :: us)) = .ok (some (.expression token e)) (s.onto [stop]) := by
    rw [statement_of_ne (other (by decide)) (other (by decide)) (other (by decide))
      (other (by decide)) (fun func => other (by decide) func.1), bind_of_ok run, bind_of_ok ended]
    rfl
  have round (bound : Nat) := (programItem_of_ne (other (by decide))).trans
    (map_some_of_ok (item_of_ok (read bound)))
  have last (bound : Nat) : programItem bound (Productions.upTo limit ((token :: us).length + 1))
      (s.onto []) = .ok none (s.onto []) :=
    programItem_of_endOfInput finish
  refine ⟨[.expression token e], ?_, ?_⟩
  · refine collect_go (round _) (?_ : collect _ (_ + 1) (s.onto []) = _)
    rw [collect, bind_of_ok (last _)]
    rfl
  · simp only [Program.depth, Statement.depthAll, Statement.depth, expressions] at high ⊢
    omega

end Parser

/-! ## Texts -/

open Guion.Parser

theorem tokensAt_members (n : Nat) : ∀ (rest : List Char) (pos : Position), Apart isLetter rest →
    ∃ after, Members n (tokensAt pos ((members n).toList ++ rest)) (tokensAt after rest) := by
  induction n with
  | zero => exact fun rest pos _ => ⟨pos, .nothing⟩
  | succ n ih =>
    intro rest pos apart
    have spelled : (members (n + 1)).toList ++ rest =
        '.' :: ("x".toList ++ ((members n).toList ++ rest)) := by
      simp [members]
    have next : Apart isLetter ((members n).toList ++ rest) := by
      cases n with
      | zero => exact apart
      | succ n => simp [members, Apart, isLetter]
    rw [spelled, tokensAt_mark '.' rfl (by decide), tokensAt_word (show "x".toList ≠ [] by decide)
      (List.all_eq_true.1 (by decide)) next]
    obtain ⟨after, more⟩ := ih rest _ apart
    exact ⟨after, .name rfl rfl more⟩

theorem tokensAt_staircase (n : Nat) : ∀ (rest : List Char) (pos : Position),
    Apart isLetter rest → ∃ after,
      Stairs n (tokensAt pos ((staircase (n + 1)).toList ++ rest)) (tokensAt after rest) := by
  induction n with
  | zero =>
    intro rest pos apart
    rw [staircase, tokensAt_word (show "a".toList ≠ [] by decide) (List.all_eq_true.1 (by decide))
      apart]
    exact ⟨_, .name rfl⟩
  | succ n ih =>
    intro rest pos apart
    have spelled : (staircase (n + 1 + 1)).toList ++ rest =
        '\x7b' :: ("a".toList ++ ':' :: ' ' :: ((staircase (n + 1)).toList ++
          '\x7d' :: ((members (n + 1)).toList ++ rest))) := by
      simp [staircase]
    rw [spelled, tokensAt_mark '\x7b' rfl (by decide),
      tokensAt_word (show "a".toList ≠ [] by decide) (List.all_eq_true.1 (by decide))
        (by rintro _ ⟨⟩; rfl),
      tokensAt_mark ':' rfl (by decide), tokensAt_space rfl]
    obtain ⟨middle, inside⟩ := ih ('\x7d' :: ((members (n + 1)).toList ++ rest)) _
      (by rintro _ ⟨⟩; rfl)
    rw [tokensAt_mark '\x7d' rfl (by decide)] at inside
    obtain ⟨after, taken⟩ := tokensAt_members (n + 1) rest _ apart
    exact ⟨after, .object rfl rfl rfl inside rfl taken⟩

/-- A staircase is read without errors, and is as high as its levels allow. -/
theorem parse_staircase (limit : Nat) : (parse limit (staircase limit)).errors = [] ∧
    (parse limit (staircase limit)).program.depth .expressions = limit * (limit + 1) / 2 := by
  rw [← height_eq]
  cases limit with
  | zero => exact ⟨by decide +kernel, by decide +kernel⟩
  | succ n =>
    obtain ⟨after, h⟩ := tokensAt_staircase n [] .start (by rintro _ ⟨⟩)
    rw [List.append_nil, tokensAt_start] at h
    have none : tokensAt after [] = [] := Cursor.scan_nil after
    rw [none] at h
    obtain ⟨p, run, high⟩ := program_of_stairs h
      (s := State.ofScanned (scan (staircase (n + 1)))) (kind_finish_scan _)
      (Nat.le_of_eq (Nat.zero_add (n + 1)))
    have run : program (n + 1) (State.ofScanned (scan (staircase (n + 1)))) = .ok p _ := run
    rw [parse, Scanned.parse, EStateM.run, run]
    exact ⟨rfl, high⟩

example : staircase 3 = "\x7ba: \x7ba: a\x7d.x\x7d.x.x" := by decide

/-- **What the nesting limit bounds.**  The most expressions on a path through a program that is
read, whatever the text, are `limit * (limit + 1) / 2`: no text has more, and a staircase, which has
no errors, has as many. -/
theorem height_isGreatest (limit : Nat) :
    IsGreatest {height | ∃ source, (parse limit source).program.depth .expressions = height}
        (limit * (limit + 1) / 2) ∧
      (parse limit (staircase limit)).errors = [] ∧
      (parse limit (staircase limit)).program.depth .expressions = limit * (limit + 1) / 2 := by
  obtain ⟨clean, high⟩ := parse_staircase limit
  refine ⟨⟨⟨staircase limit, high⟩, ?_⟩, clean, high⟩
  rintro _ ⟨source, rfl⟩
  exact depth_parse_le limit source

end Guion
