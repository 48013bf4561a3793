import Guion.Proofs.Grammar.Derivation

/-!
# The shape of derivations

What the first token of a construct says about it, as far as a reader that looks one token ahead
relies on it:

- an expression starts with one of a few kinds (`Expr.starts`), so the end of a bare `regresa` is
  never mistaken for one, and an anonymous function is told from a named one;
- what follows a statement in a list is the start of another item or the end of the list
  (`Items.begins`);
- a semicolon at the front of a list of items is an item by itself (`Items.of_semicolon`).

A name, possibly in parentheses, is an expression and a target alike (`Expr.target`,
`Target.primary`).
-/

set_option autoImplicit false

namespace Guion

/-- The kinds of token that an expression can start with. -/
def Token.Kind.startsExpression : Token.Kind → Bool
  | .identifier | .integer | .float | .string | .verdadero | .falso | .bang | .minus | .leftParen
  | .func | .si | .leftCurly => true
  | _ => false

/-- The kinds of token that an item can start with. -/
def Token.Kind.startsItem : Token.Kind → Bool
  | .semicolon | .var | .constant | .regresa => true
  | kind => kind.startsExpression

theorem Token.Kind.startsItem_of_startsExpression {kind : Token.Kind}
    (h : kind.startsExpression) : kind.startsItem := by
  cases kind <;> first | rfl | cases h

namespace Grammar

variable {follow : List Token → Prop} {ts rest : List Token} {e : Expression}

/-- The tokens start as an expression does; after `func` comes a parameter list. -/
inductive Starts : List Token → Prop
  | mk {t : Token} {ts : List Token} : t.kind.startsExpression →
      (t.kind = .func → ∃ p us, ts = p :: us ∧ p.kind = .leftParen) → Starts (t :: ts)

theorem Starts.of_kind {t : Token} {kind : Token.Kind} (h : t.kind = kind)
    (starts : kind.startsExpression) (other : kind ≠ .func) : Starts (t :: ts) := by
  subst h
  exact ⟨starts, fun same => absurd same other⟩

theorem Parameters.starts {names : List Identifier} (h : Parameters ts names rest) :
    ∃ p us, ts = p :: us ∧ p.kind = .leftParen := by
  cases h with
  | none left _ => exact ⟨_, _, rfl, left⟩
  | some left _ _ => exact ⟨_, _, rfl, left⟩

theorem Target.starts {name : Identifier} (h : Target ts name rest) : Starts ts := by
  cases h with
  | name kind => exact .of_kind kind rfl nofun
  | grouped kind _ _ => exact .of_kind kind rfl nofun

theorem Literal.starts {t : Token} (h : Literal t e) : Starts (t :: ts) := by
  cases h with
  | integer kind _ => exact .of_kind kind rfl nofun
  | float kind _ _ _ => exact .of_kind kind rfl nofun
  | verdadero kind => exact .of_kind kind rfl nofun
  | falso kind => exact .of_kind kind rfl nofun
  | string kind => exact .of_kind kind rfl nofun

theorem Primary.starts (h : Primary follow ts e rest) : Starts ts := by
  cases h with
  | name kind => exact .of_kind kind rfl nofun
  | literal literal => exact literal.starts
  | grouped kind _ _ => exact .of_kind kind rfl nofun
  | function kind names _ => exact ⟨by rw [kind]; rfl, fun _ => names.starts⟩
  | conditional kind _ => exact .of_kind kind rfl nofun
  | object kind _ => exact .of_kind kind rfl nofun

theorem Applied.starts {ts rest : List Token} {e : Expression} :
    Applied follow ts e rest → Starts ts
  | .primary first => first.starts
  | .call callee _ _ => callee.starts
  | .member object _ _ => object.starts
  | .index object _ _ _ => object.starts

theorem starts_of_unaryOperator? {t : Token} {op : UnaryOp}
    (h : unaryOperator? t.kind = some op) : Starts (t :: ts) := by
  cases kind : t.kind <;> rw [kind] at h
  case bang => exact .of_kind kind rfl nofun
  case minus => exact .of_kind kind rfl nofun
  all_goals cases h

theorem Chain.starts {level : Level} {ts rest : List Token} {e : Expression} :
    Chain follow level ts e rest → Starts ts
  | .binary left _ _ => left.starts
  | .tighter _ chain => chain.starts
  | .unary op _ => starts_of_unaryOperator? op
  | .applied operand => operand.starts

theorem Expr.starts (h : Expr follow ts e rest) : Starts ts := by
  cases h with
  | operators chain => exact chain.starts
  | assign target _ _ => exact target.starts

theorem Separated.first {α : Type} {item : List Token → α → List Token → Prop} {as : List α}
    (h : Separated item ts as rest) : ∃ a us, item ts a us := by
  cases h with
  | one first => exact ⟨_, _, first⟩
  | more first _ _ => exact ⟨_, _, first⟩

theorem Name.starts {name : Identifier} (h : Name ts name rest) :
    ∃ t us, ts = t :: us ∧ t.kind = .identifier := by
  cases h with
  | mk kind => exact ⟨_, _, rfl, kind⟩

theorem Entry.starts {p : Property} (h : Entry follow ts p rest) :
    ∃ t us, ts = t :: us ∧ t.kind = .identifier := by
  cases h with
  | key kind => exact ⟨_, _, rfl, kind⟩
  | value kind _ _ => exact ⟨_, _, rfl, kind⟩

/-! ## Items -/

/-- The tokens are none, or start with an item or with the brace that closes a block. -/
def Begins (ts : List Token) : Prop :=
  ∀ t ∈ ts.head?, t.kind.startsItem ∨ t.kind = .rightCurly

theorem begins_cons {t : Token} (h : t.kind.startsItem) : Begins (t :: ts) := by
  rintro u ⟨⟩
  exact .inl h

/-- A statement starts with a token that is no semicolon. -/
theorem Clause.starts {s : Statement} (h : Clause follow ts s rest) :
    ∃ t us, ts = t :: us ∧ t.kind.startsItem ∧ t.kind ≠ .semicolon := by
  cases h with
  | declaration kind _ _ _ _ =>
    refine ⟨_, _, rfl, ?_⟩
    rcases kind with kind | kind <;> rw [kind] <;> exact ⟨rfl, nofun⟩
  | uninitialized kind _ _ => exact ⟨_, _, rfl, by rw [kind]; exact ⟨rfl, nofun⟩⟩
  | result kind _ _ => exact ⟨_, _, rfl, by rw [kind]; exact ⟨rfl, nofun⟩⟩
  | bare kind _ _ => exact ⟨_, _, rfl, by rw [kind]; exact ⟨rfl, nofun⟩⟩
  | function kind _ _ _ _ => exact ⟨_, _, rfl, by rw [kind]; exact ⟨rfl, nofun⟩⟩
  | expression value _ =>
    obtain ⟨kind, _⟩ := value.starts
    refine ⟨_, _, rfl, Token.Kind.startsItem_of_startsExpression kind, fun same => ?_⟩
    rw [same] at kind
    cases kind

/-- A list of items starts with an item, or there is none and it starts as what follows it. -/
theorem Items.begins {ss : List Statement} (h : Items follow ts ss rest) (after : Begins rest) :
    Begins ts := by
  cases h with
  | done => exact after
  | semicolon kind _ => exact begins_cons (by rw [kind]; rfl)
  | statement clause _ =>
    obtain ⟨t, us, rfl, kind, _⟩ := clause.starts
    exact begins_cons kind

/-- A semicolon at the front of items is one of them, unless it follows them. -/
theorem Items.of_semicolon {t : Token} {ss : List Statement} (h : Items follow (t :: ts) ss rest)
    (kind : t.kind = .semicolon) (after : ∀ u ∈ rest.head?, u.kind ≠ .semicolon) :
    Items follow ts ss rest := by
  cases h with
  | done => exact absurd kind (after t rfl)
  | semicolon _ items => exact items
  | statement clause _ =>
    obtain ⟨u, us, same, _, other⟩ := clause.starts
    cases same
    exact absurd kind other

/-- A statement may take the semicolon after it from the items that follow. -/
theorem Items.of_skipped {us : List Token} {ss : List Statement} (h : Items follow ts ss rest)
    (skipped : us = ts ∨ ∃ t, t.kind = .semicolon ∧ ts = t :: us)
    (after : ∀ u ∈ rest.head?, u.kind ≠ .semicolon) : Items follow us ss rest := by
  rcases skipped with rfl | ⟨t, kind, rfl⟩
  · exact h
  · exact h.of_semicolon kind after

/-! ## Names -/

/-- An application is an expression without operators outside it. -/
theorem Applied.expr (h : Applied follow ts e rest) : Expr follow ts e rest :=
  .operators (.tighter nofun (.tighter nofun (.tighter nofun (.tighter nofun (.applied h)))))

/-- A target is the expression that its name is. -/
theorem Target.primary {ts rest : List Token} {name : Identifier} :
    Target ts name rest → Primary follow ts (.identifier name) rest
  | .name kind => .name kind
  | .grouped left target right => .grouped left (Applied.primary target.primary).expr right

mutual

theorem Expr.target_of_eq {ts rest : List Token} {e : Expression} {name : Identifier} :
    Expr follow ts e rest → e = .identifier name → Target ts name rest
  | .operators chain, same => chain.target_of_eq same
  | .assign _ _ _, same => nomatch same

theorem Chain.target_of_eq {level : Level} {ts rest : List Token} {e : Expression}
    {name : Identifier} : Chain follow level ts e rest → e = .identifier name → Target ts name rest
  | .binary _ _ _, same => nomatch same
  | .tighter _ chain, same => chain.target_of_eq same
  | .unary _ _, same => nomatch same
  | .applied operand, same => operand.target_of_eq same

theorem Applied.target_of_eq {ts rest : List Token} {e : Expression} {name : Identifier} :
    Applied follow ts e rest → e = .identifier name → Target ts name rest
  | .primary first, same => first.target_of_eq same
  | .call _ _ _, same => nomatch same
  | .member _ _ _, same => nomatch same
  | .index _ _ _ _, same => nomatch same

theorem Primary.target_of_eq {ts rest : List Token} {e : Expression} {name : Identifier} :
    Primary follow ts e rest → e = .identifier name → Target ts name rest
  | .name kind, same => by
    cases same
    exact .name kind
  | .literal one, same => by
    subst same
    cases one
  | .grouped left inside right, same => .grouped left (inside.target_of_eq same) right
  | .function _ _ _, same => nomatch same
  | .conditional _ _, same => nomatch same
  | .object _ _, same => nomatch same

end

/-- An expression that is a name is a target. -/
theorem Expr.target {name : Identifier} (h : Expr follow ts (.identifier name) rest) :
    Target ts name rest :=
  h.target_of_eq rfl

end Grammar

end Guion
