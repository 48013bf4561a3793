import Guion.Proofs.Grammar.Shape
import Mathlib.Tactic.SplitIfs

/-!
# Brackets in derivations

Round, square and curly brackets match when each one is closed by one of its own kind, the last one
opened first (`Matched`).  All that the grammar derives uses up tokens whose brackets match
(`Expr.spent` and those with it).  So a derived construct before a closing bracket ends where the
brackets say (`eq_of_matched`), whatever the derivation.
-/

set_option autoImplicit false

namespace Guion

/-- The kind of bracket that closes a bracket of this kind. -/
def Token.Kind.closing? : Token.Kind → Option Token.Kind
  | .leftParen => some .rightParen
  | .leftBracket => some .rightBracket
  | .leftCurly => some .rightCurly
  | _ => none

/-- A closing bracket. -/
def Token.Kind.closes : Token.Kind → Bool
  | .rightParen | .rightBracket | .rightCurly => true
  | _ => false

/-- The brackets that are to be closed after the tokens, the innermost first, if those to be closed
before were `due`.  There are none to tell where a bracket is closed that is not the innermost. -/
def brackets (due : List Token.Kind) : List Token → Option (List Token.Kind)
  | [] => some due
  | t :: ts =>
    match t.kind.closing? with
    | some close => brackets (close :: due) ts
    | none =>
      if t.kind.closes then
        if due.head? = some t.kind then brackets due.tail ts else none
      else brackets due ts

/-- The brackets among the tokens match. -/
def Matched (ts : List Token) : Prop := brackets [] ts = some []

instance (ts : List Token) : Decidable (Matched ts) :=
  inferInstanceAs (Decidable (brackets [] ts = some []))

section Brackets

variable {t : Token} {ts us : List Token}

theorem brackets_append (due : List Token.Kind) (ts us : List Token) :
    brackets due (ts ++ us) = (brackets due ts).bind fun left => brackets left us := by
  induction ts generalizing due with
  | nil => rfl
  | cons t ts ih =>
    simp only [List.cons_append, brackets, ih]
    split
    · rfl
    · split_ifs <;> rfl

/-- Brackets that are to be closed further out do not matter. -/
theorem brackets_below {due left : List Token.Kind} (below : List Token.Kind)
    (h : brackets due ts = some left) : brackets (due ++ below) ts = some (left ++ below) := by
  induction ts generalizing due with
  | nil =>
    cases h
    rfl
  | cons t ts ih =>
    simp only [brackets] at h ⊢
    split at h
    · exact ih h
    · split_ifs at h with closes inner
      · cases due with
        | nil => cases inner
        | cons close due =>
          have inner : (close :: due ++ below).head? = some t.kind := inner
          rw [if_pos closes, if_pos inner]
          exact ih h
      · rw [if_neg closes]
        exact ih h

theorem Matched.brackets (h : Matched ts) (due : List Token.Kind) :
    Guion.brackets due ts = some due :=
  brackets_below due h

/-- The same kinds of token, the same brackets. -/
theorem brackets_congr (same : ts.map Token.kind = us.map Token.kind) (due : List Token.Kind) :
    brackets due ts = brackets due us := by
  induction ts generalizing us due with
  | nil =>
    rw [List.map_nil, eq_comm, List.map_eq_nil_iff] at same
    rw [same]
  | cons t ts ih =>
    obtain ⟨u, us, rfl⟩ : ∃ u us', us = u :: us' := by
      cases us with
      | nil => cases same
      | cons u us => exact ⟨u, us, rfl⟩
    obtain ⟨kind, rest⟩ := List.cons.inj same
    simp only [brackets, ← kind, ih rest]

namespace Matched

theorem nil : Matched [] := rfl

theorem append (first : Matched ts) (rest : Matched us) : Matched (ts ++ us) := by
  rw [Matched, brackets_append, first]
  exact rest

theorem plain (opens : t.kind.closing? = none) (closes : t.kind.closes = false) : Matched [t] := by
  simp [Matched, Guion.brackets, opens, closes]

theorem enclosed {left right : Token} (pair : left.kind.closing? = some right.kind)
    (inside : Matched ts) : Matched (left :: (ts ++ [right])) := by
  have closing : right.kind.closing? = none ∧ right.kind.closes = true := by
    generalize right.kind = close at pair
    revert pair
    cases left.kind <;> rintro ⟨⟩ <;> exact ⟨rfl, rfl⟩
  simp [Matched, Guion.brackets, pair, brackets_append, inside.brackets, closing]

end Matched

/-- A closing bracket after matched brackets is not one of theirs. -/
theorem not_matched_append {close : Token} (inside : Matched ts)
    (closes : close.kind.closes = true) : ¬ Matched (ts ++ close :: us) := by
  intro all
  have none : close.kind.closing? = none := by
    revert closes
    cases close.kind <;> rintro ⟨⟩ <;> rfl
  rw [Matched, brackets_append, inside] at all
  simp [brackets, none, closes] at all

/-- Matched brackets before a closing one reach up to the first that closes none of them. -/
theorem eq_of_matched {vs xs ys : List Token} {close close' : Token} (first : Matched us)
    (second : Matched vs) (closes : close.kind.closes = true) (closes' : close'.kind.closes = true)
    (same : us ++ close :: xs = vs ++ close' :: ys) : us = vs ∧ close :: xs = close' :: ys := by
  rcases List.append_eq_append_iff.1 same with ⟨mid, rfl, rest⟩ | ⟨mid, rfl, rest⟩
  · cases mid with
    | nil => exact ⟨(List.append_nil us).symm, rest⟩
    | cons t mid =>
      obtain ⟨rfl, -⟩ := List.cons.inj rest
      exact absurd second (not_matched_append first closes)
  · cases mid with
    | nil => exact ⟨List.append_nil vs, rest.symm⟩
    | cons t mid =>
      obtain ⟨rfl, -⟩ := List.cons.inj rest
      exact absurd first (not_matched_append second closes')

end Brackets

namespace Grammar

/-! ## Derivations -/

/-- The tokens before `rest` have matched brackets. -/
def Spent (ts rest : List Token) : Prop := ∃ used, ts = used ++ rest ∧ Matched used

namespace Spent

variable {t : Token} {ts us rest : List Token}

theorem refl (ts : List Token) : Spent ts ts := ⟨[], rfl, .nil⟩

theorem trans (first : Spent ts us) (second : Spent us rest) : Spent ts rest := by
  obtain ⟨used, rfl, matched⟩ := first
  obtain ⟨more, rfl, others⟩ := second
  exact ⟨used ++ more, (List.append_assoc _ _ _).symm, matched.append others⟩

/-- A token that is no bracket. -/
theorem token {kind : Token.Kind} (found : t.kind = kind) (rest : List Token)
    (opens : kind.closing? = none := by rfl) (closes : kind.closes = false := by rfl) :
    Spent (t :: rest) rest :=
  ⟨[t], rfl, .plain (found ▸ opens) (found ▸ closes)⟩

theorem enclosed {left right : Token} {kind close : Token.Kind} (opens : left.kind = kind)
    (inside : Spent ts (right :: rest)) (closes : right.kind = close)
    (pair : kind.closing? = some close := by rfl) : Spent (left :: ts) rest := by
  obtain ⟨used, rfl, matched⟩ := inside
  refine ⟨left :: (used ++ [right]), by simp, matched.enclosed ?_⟩
  rw [opens, closes, pair]

end Spent

variable {follow : List Token → Prop}

theorem Name.spent {ts rest : List Token} {name : Identifier} : Name ts name rest → Spent ts rest
  | .mk kind => .token kind _

theorem Separated.spent {α : Type} {item : List Token → α → List Token → Prop}
    (one : ∀ {ts a rest}, item ts a rest → Spent ts rest) {ts rest : List Token} {as : List α} :
    Separated item ts as rest → Spent ts rest
  | .one first => one first
  | .more first comma others => (one first).trans (.trans (.token comma _) (others.spent one))

theorem Parameters.spent {ts rest : List Token} {names : List Identifier} :
    Parameters ts names rest → Spent ts rest
  | .none left right => .enclosed left (.refl _) right
  | .some left names right => .enclosed left (names.spent Name.spent) right

theorem Target.spent {ts rest : List Token} {name : Identifier} :
    Target ts name rest → Spent ts rest
  | .name kind => .token kind _
  | .grouped left inside right => .enclosed left inside.spent right

theorem Literal.spent {t : Token} {e : Expression} (rest : List Token) :
    Literal t e → Spent (t :: rest) rest
  | .integer kind _ | .float kind _ _ _ | .verdadero kind | .falso kind | .string kind =>
    .token kind _

theorem Ended.spent {ts rest : List Token} : Ended follow ts rest → Spent ts rest
  | .semicolon kind => .token kind _
  | .nothing _ => .refl _

theorem spent_of_operator? {level : Level} {t : Token} {op : BinaryOp}
    (h : level.operator? t.kind = some op) (rest : List Token) : Spent (t :: rest) rest := by
  refine ⟨[t], rfl, ?_⟩
  revert h
  cases level <;> cases kind : t.kind <;> rintro ⟨⟩ <;>
    exact .plain (by rw [kind]; rfl) (by rw [kind]; rfl)

theorem spent_of_unaryOperator? {t : Token} {op : UnaryOp} (h : unaryOperator? t.kind = some op)
    (rest : List Token) : Spent (t :: rest) rest := by
  refine ⟨[t], rfl, ?_⟩
  revert h
  cases kind : t.kind <;> rintro ⟨⟩ <;> exact .plain (by rw [kind]; rfl) (by rw [kind]; rfl)

mutual

theorem Expr.spent {ts rest : List Token} {e : Expression} : Expr follow ts e rest → Spent ts rest
  | .operators chain => chain.spent
  | .assign target equals value => target.spent.trans (.trans (.token equals _) value.spent)

theorem Chain.spent {level : Level} {ts rest : List Token} {e : Expression} :
    Chain follow level ts e rest → Spent ts rest
  | .binary left op right => left.spent.trans (.trans (spent_of_operator? op _) right.spent)
  | .tighter _ chain => chain.spent
  | .unary op operand => .trans (spent_of_unaryOperator? op _) operand.spent
  | .applied operand => operand.spent

theorem Applied.spent {ts rest : List Token} {e : Expression} :
    Applied follow ts e rest → Spent ts rest
  | .primary first => first.spent
  | .call callee left values => callee.spent.trans (values.spent left)
  | .member object dot name => object.spent.trans (.trans (.token dot _) (.token name _))
  | .index object left key right => object.spent.trans (.enclosed left key.spent right)

theorem Primary.spent {ts rest : List Token} {e : Expression} :
    Primary follow ts e rest → Spent ts rest
  | .name kind => .token kind _
  | .literal one => one.spent _
  | .grouped left inside right => .enclosed left inside.spent right
  | .function func names body => .trans (.token func _) (names.spent.trans body.spent)
  | .conditional si branches => .trans (.token si _) branches.spent
  | .object left entries => entries.spent left

theorem Arguments.spent {left : Token} {ts rest : List Token} {values : List Expression} :
    Arguments follow ts values rest → left.kind = .leftParen → Spent (left :: ts) rest
  | .none right, opens => .enclosed opens (.refl _) right
  | .some values right, opens => .enclosed opens (spent_expressions values) right

theorem spent_expressions {ts rest : List Token} {values : List Expression} :
    Separated (Expr follow) ts values rest → Spent ts rest
  | .one first => first.spent
  | .more first comma others =>
    first.spent.trans (.trans (.token comma _) (spent_expressions others))

theorem Entries.spent {left : Token} {ts rest : List Token} {properties : List Property} :
    Entries follow ts properties rest → left.kind = .leftCurly → Spent (left :: ts) rest
  | .none right, opens => .enclosed opens (.refl _) right
  | .some entries right, opens => .enclosed opens (spent_entries entries) right
  | .comma entries comma right, opens =>
    .enclosed opens ((spent_entries entries).trans (.token comma _)) right

theorem spent_entries {ts rest : List Token} {properties : List Property} :
    Separated (Entry follow) ts properties rest → Spent ts rest
  | .one first => first.spent
  | .more first comma others => first.spent.trans (.trans (.token comma _) (spent_entries others))

theorem Entry.spent {ts rest : List Token} {p : Property} : Entry follow ts p rest → Spent ts rest
  | .key kind => .token kind _
  | .value kind colon value => .trans (.token kind _) (.trans (.token colon _) value.spent)

theorem Branches.spent {ts rest : List Token} {c : Expression} {b : Block} {other : Option Block} :
    Branches follow ts c b other rest → Spent ts rest
  | .mk left condition right body others =>
    .trans (.enclosed left condition.spent right) (body.spent.trans others.spent)

theorem Alternative.spent {ts rest : List Token} {other : Option Block} :
    Alternative follow ts other rest → Spent ts rest
  | .none => .refl _
  | .sino kind body => .trans (.token kind _) body.spent
  | .sinosi kind branches => .trans (.token kind _) branches.spent

theorem Body.spent {ts rest : List Token} {b : Block} : Body follow ts b rest → Spent ts rest
  | .mk left items right => .enclosed left items.spent right

theorem Clause.spent {ts rest : List Token} {s : Statement} :
    Clause follow ts s rest → Spent ts rest
  | .declaration kind name equals value ended => by
    refine .trans ?_ (.trans (.token name _) (.trans (.token equals _)
      (value.spent.trans ended.spent)))
    exact kind.elim (Spent.token · _) (Spent.token · _)
  | .uninitialized kind name ended => .trans (.token kind _) (.trans (.token name _) ended.spent)
  | .result kind value ended => .trans (.token kind _) (value.spent.trans ended.spent)
  | .bare kind _ ended => .trans (.token kind _) ended.spent
  | .function kind name names body ended =>
    .trans (.token kind _) (.trans (.token name _)
      (names.spent.trans (body.spent.trans ended.spent)))
  | .expression value ended => value.spent.trans ended.spent

theorem Items.spent {ts rest : List Token} {statements : List Statement} :
    Items follow ts statements rest → Spent ts rest
  | .done => .refl _
  | .semicolon kind items => .trans (.token kind _) items.spent
  | .statement clause items => clause.spent.trans items.spent

end

end Grammar

end Guion
