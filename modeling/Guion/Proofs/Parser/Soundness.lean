import Guion.Proofs.Number.Literals
import Guion.Proofs.Parser.Precedence
import Guion.Proofs.Parser.Progress

/-!
# What is read is derived

A run that succeeds and records no error has read a construct of the grammar, and the tokens it used
up derive the tree it yields.  The statement for each production is an inversion of its run:
`Clean` runs of a sequence are clean runs of its parts, so a production is taken apart step by step.

The loop over operators carries the invariant of `operators_sound`: what was read so far belongs to
a stratum that the next token does not extend from inside.
-/

set_option autoImplicit false

namespace Guion.Parser

open Bounded Grammar

variable {α β : Type}

/-! ## Clean runs -/

/-- The run from `s` yields `a`, ends in `t` and records no error. -/
structure Clean (p : Parser α) (s : State) (a : α) (t : State) : Prop where
  sane : s.Sane
  run : p s = .ok a t
  errors : t.errors = s.errors

section Clean

variable {p : Parser α} {f : α → Parser β} {s t : State} {a : α} {b : β}

theorem State.Ahead.errors_eq {s t u : State} (first : s.Ahead t) (rest : t.Ahead u)
    (same : u.errors = s.errors) : t.errors = s.errors := by
  -- errors are only added, so none were added on the way either
  have back : t.errors.toList <+: s.errors.toList := same ▸ rest.errors
  exact Array.toList_inj.1 (back.eq_of_length_le first.errors.length_le)

theorem Clean.bind [Onward p] [∀ a, Onward (f a)] (h : Clean (p >>= f) s b t) :
    ∃ a u, Clean p s a u ∧ Clean (f a) u b t := by
  obtain ⟨a, u, first, rest⟩ := bind_eq_ok_iff.1 h.run
  have past := Keeps.ok (R := State.Ahead) first
  have same := past.errors_eq (Keeps.ok rest) h.errors
  exact ⟨a, u, ⟨h.sane, first, same⟩, ⟨h.sane.onward past, rest, h.errors.trans same.symm⟩⟩

theorem Clean.pure_eq {c : α} (h : Clean (pure a) s c t) : c = a ∧ t = s := by
  cases h.run
  exact ⟨rfl, rfl⟩

theorem Clean.map_some [Onward p] {found : Option α} (h : Clean (some <$> p) s found t) :
    ∃ a, found = some a ∧ Clean p s a t := by
  rw [map_eq_bind] at h
  obtain ⟨a, u, first, rest⟩ := h.bind
  obtain ⟨rfl, rfl⟩ := rest.pure_eq
  exact ⟨a, rfl, first⟩

theorem Clean.current {f : Token → Parser β} (h : Clean (current >>= f) s b t) :
    Clean (f s.current) s b t :=
  ⟨h.sane, h.run, h.errors⟩

theorem Clean.peek {f : Token → Parser β} (h : Clean (peek >>= f) s b t) :
    Clean (f s.peek) s b t :=
  ⟨h.sane, h.run, h.errors⟩

theorem Clean.advance {f : Unit → Parser β} (h : Clean (advance >>= f) s b t) :
    Clean (f ()) s.advance b t :=
  ⟨h.sane.onward s.ahead_advance, h.run, h.errors⟩

theorem Clean.failHere {fault : SyntaxError.Fault} (h : Clean (failHere fault) s a t) : False := by
  cases h.run

/-- A token that was expected is the first of those ahead, and is current afterwards. -/
theorem Clean.expect {kind : Token.Kind} (h : Clean (expect kind) s () t)
    (before : kind ≠ .endOfInput) :
    ∃ token, token.kind = kind ∧ s.ahead = token :: t.ahead ∧ t.tokens = token :: t.ahead := by
  obtain ⟨found, rfl⟩ := expect_eq_ok h.run
  have left := State.ahead_of_kind found h.sane.finish before
  exact ⟨s.peek, found, left, left⟩

theorem Clean.expectIdentifier {name : Identifier} (h : Clean expectIdentifier s name t) :
    Name s.ahead name t.ahead := by
  obtain ⟨_, u, expected, rest⟩ := h.bind
  obtain ⟨token, kind, ahead, tokens⟩ := expected.expect (by decide)
  obtain ⟨rfl, rfl⟩ := rest.current.pure_eq
  rw [State.current_of_tokens tokens, ahead]
  exact .mk kind

theorem Clean.nested {limit : Nat} (h : Clean (nested limit p) s a t) :
    ∃ u, Clean p { s with depth := s.depth + 1 } a u ∧ t = u.leave := by
  obtain ⟨_, v, first, rest⟩ := bind_eq_ok_iff.1 h.run
  obtain ⟨-, rfl⟩ := enter_eq_ok first
  obtain ⟨u, run, rfl⟩ := ensuring_eq_ok rest
  exact ⟨u, ⟨⟨h.sane.finish, h.sane.lexed⟩, run, h.errors⟩, rfl⟩

theorem Clean.keepingDepth (h : Clean (keepingDepth p) s a t) :
    ∃ u, Clean p s a u ∧ t = { u with depth := s.depth } := by
  obtain ⟨u, run, rfl⟩ := ensuring_eq_ok h.run
  exact ⟨u, ⟨h.sane, run, h.errors⟩, rfl⟩

/-- A statement that was skipped has left an error. -/
theorem Clean.recovering {p : Parser (Option α)} [Onward p] {a : Option α}
    (h : Clean (recovering p) s a t) : Clean p s a t := by
  have run := h.run
  rw [Parser.recovering] at run
  cases outcome : p s with
  | ok b u =>
    rw [outcome] at run
    exact ⟨h.sane, outcome.trans run, h.errors⟩
  | error e u =>
    rw [outcome] at run
    cases e with
    | error e =>
      cases run
      -- recovery records the error, which a clean run does not
      have fewer := (Keeps.error (R := State.Ahead) outcome).errors.length_le
      have more : (u.errors.push e).size = s.errors.size := congrArg Array.size h.errors
      simp only [Array.size_push, Array.length_toList] at more fewer
      omega
    | exhausted => cases run

/-- A repetition stops at once, or goes one round and on. -/
theorem Clean.collect {round : Parser (Option (List α))} [Onward round] {n : Nat} {as : List α}
    (h : Clean (collect round (n + 1)) s as t) :
    (as = [] ∧ Clean round s none t) ∨
      ∃ found u more, as = found ++ more ∧ Clean round s (some found) u ∧
        Clean (Bounded.collect round n) u more t := by
  obtain ⟨found, u, first, rest⟩ := bind_eq_ok_iff.1 h.run
  have past := Keeps.ok (R := State.Ahead) first
  cases found with
  | none =>
    cases rest
    exact .inl ⟨rfl, h.sane, first, h.errors⟩
  | some found =>
    obtain ⟨more, v, again, last⟩ := bind_eq_ok_iff.1 rest
    cases last
    have same := past.errors_eq (Keeps.ok again) h.errors
    exact .inr ⟨found, u, more, rfl, ⟨h.sane, first, same⟩,
      ⟨h.sane.onward past, again, h.errors.trans same.symm⟩⟩

theorem Clean.exhausted (h : Clean (exhausted : Parser α) s a t) : False := by
  cases h.run

end Clean

/-! ## Items with commas between them -/

/-- One item and the repetition of further items after commas.  How the repetition stops is left to
`trail`. -/
theorem separated_of_collect {round : Parser (Option (List α))} [Onward round]
    {item : List Token → α → List Token → Prop} {trail : List Token → List Token → Prop}
    (stops : ∀ {s t : State}, Clean round s none t → trail s.ahead t.ahead)
    (goes : ∀ {s t : State} {found : List α}, Clean round s (some found) t →
      ∃ a comma us, found = [a] ∧ comma.kind = .comma ∧ s.ahead = comma :: us ∧ item us a t.ahead)
    (n : Nat) : ∀ {ts : List Token} {a : α} {s t : State} {as : List α},
      item ts a s.ahead → Clean (collect round n) s as t →
      ∃ mid, Separated item ts (a :: as) mid ∧ trail mid t.ahead := by
  induction n with
  | zero =>
    intro ts a s t as first h
    exact h.exhausted.elim
  | succ n ih =>
    intro ts a s t as first h
    rcases h.collect with ⟨rfl, stop⟩ | ⟨found, u, more, rfl, go, rest⟩
    -- no further comma: the item read before is the last
    · exact ⟨s.ahead, .one first, stops stop⟩
    · obtain ⟨b, comma, us, rfl, kind, ahead, next⟩ := goes go
      obtain ⟨mid, others, trailing⟩ := ih next rest
      rw [ahead] at first
      exact ⟨mid, .more first kind others, trailing⟩

theorem Clean.commaSeparated {p : Parser α} [Onward p] {n : Nat}
    {item : List Token → α → List Token → Prop}
    (reads : ∀ {s t : State} {a : α}, Clean p s a t → item s.ahead a t.ahead)
    {ts : List Token} {a : α} {s t : State} {as : List α} (first : item ts a s.ahead)
    (h : Clean (commaSeparated n p) s as t) : Separated item ts (a :: as) t.ahead := by
  have stops {s t : State} (h : Clean (commaItem p) s none t) : s.ahead = t.ahead := by
    have h := h.peek
    by_cases comma : s.peek.kind = .comma
    · rw [if_pos comma] at h
      obtain ⟨a, u, _, rest⟩ := h.advance.bind
      cases rest.run
    · rw [if_neg comma] at h
      obtain ⟨-, rfl⟩ := h.pure_eq
      rfl
  have goes {s t : State} {found : List α} (h : Clean (commaItem p) s (some found) t) :
      ∃ a comma us, found = [a] ∧ comma.kind = .comma ∧ s.ahead = comma :: us ∧
        item us a t.ahead := by
    have h := h.peek
    by_cases comma : s.peek.kind = .comma
    · rw [if_pos comma] at h
      obtain ⟨a, u, one, rest⟩ := h.advance.bind
      obtain ⟨same, rfl⟩ := rest.pure_eq
      cases same
      have left := State.ahead_of_kind comma h.sane.finish (by decide)
      exact ⟨a, s.peek, _, rfl, comma, left, reads one⟩
    · rw [if_neg comma] at h
      cases h.run
  obtain ⟨mid, all, rfl⟩ := separated_of_collect stops goes n first h
  exact all

theorem Clean.parameters {n : Nat} {names : List Identifier} {s t : State} {left : Token}
    (kind : left.kind = .leftParen) (h : Clean (parameters n) s names t) :
    Parameters (left :: s.ahead) names t.ahead := by
  have h := h.peek
  by_cases closing : s.peek.kind = .rightParen
  · rw [if_pos closing] at h
    obtain ⟨rfl, rfl⟩ := h.advance.pure_eq
    rw [State.ahead_of_kind closing h.sane.finish (by decide)]
    exact .none kind closing
  · rw [if_neg closing] at h
    obtain ⟨first, u, one, h⟩ := h.bind
    obtain ⟨more, v, others, h⟩ := h.bind
    obtain ⟨_, w, close, h⟩ := h.bind
    obtain ⟨rfl, rfl⟩ := h.pure_eq
    have all := others.commaSeparated Clean.expectIdentifier one.expectIdentifier
    obtain ⟨right, closes, ahead, -⟩ := close.expect (by decide)
    rw [ahead] at all
    exact .some kind all closes

/-! ## Expressions -/

/-- The productions one level further in read what the grammar derives. -/
class Productions.Sound (inner : Productions) : Prop where
  expression : ∀ {power : BindingPower} {s t : State} {e : Expression},
    Clean (inner.expression power) s e t →
      At Unextended power.inside s.tokens e t.ahead ∧
        (BindingPower.ofKind t.peek.kind).rank ≤ power.rank
  block : ∀ {s t : State} {b : Block} {left : Token}, Clean inner.block s b t →
    s.tokens = left :: s.ahead → left.kind = .leftCurly → Body Unextended s.tokens b t.ahead
  conditional : ∀ {token : Token} {s t : State} {e : Expression},
    Clean (inner.conditional token) s e t →
      ∃ c b other, e = .conditional token c b other ∧ Branches Unextended s.ahead c b other t.ahead

theorem literal_of_integer {token : Token} {value : Int} (lexed : token.Lexed)
    (kind : token.kind = .integer) (h : Number.readInteger? token.text = some value) :
    Literal token (.integer token value) := by
  obtain ⟨some_digit, digits⟩ := lexed.integer kind
  rw [Number.readInteger?_of_digits some_digit digits] at h
  split at h
  · rename_i small
    cases h
    exact .integer kind small
  · cases h

theorem literal_of_float {token : Token} {value : Float} (lexed : token.Lexed)
    (kind : token.kind = .float) (h : Number.read? token.text = some value) :
    Literal token (.float token value) := by
  obtain ⟨whole, fraction, spelled, ⟨some_digit, digits⟩, ⟨_, places⟩⟩ := lexed.float kind
  rw [Number.read?_of_decimal spelled some_digit digits places] at h
  cases h
  exact .float kind spelled digits places

section Productions

variable {limit bound : Nat} {inner : Productions} [inner.Onward] [sound : inner.Sound]
  {s t : State}

omit [inner.Onward] in
theorem Clean.nextExpression {power : BindingPower} {e : Expression}
    (h : Clean (nextExpression inner power) s e t) :
    At Unextended power.inside s.ahead e t.ahead ∧
      (BindingPower.ofKind t.peek.kind).rank ≤ power.rank :=
  sound.expression h.advance

omit [inner.Onward] in
/-- The brace that was expected opens the block. -/
theorem Clean.braced {b : Block} {u : State} (brace : Clean (Parser.expect .leftCurly) s () u)
    (block : Clean inner.block u b t) : Body Unextended s.ahead b t.ahead := by
  obtain ⟨curly, kind, ahead, tokens⟩ := brace.expect (by decide)
  have body := sound.block block tokens kind
  rw [tokens, ← ahead] at body
  exact body

theorem Clean.functionRest {names : List Identifier} {body : Block}
    (h : Clean (functionRest bound inner) s (names, body) t) :
    ∃ us, Parameters s.ahead names us ∧ Body Unextended us body t.ahead := by
  obtain ⟨_, u, opening, h⟩ := h.bind
  obtain ⟨found, v, parameters, h⟩ := h.bind
  obtain ⟨_, w, brace, h⟩ := h.bind
  obtain ⟨read, x, block, h⟩ := h.bind
  obtain ⟨same, rfl⟩ := h.pure_eq
  cases same
  obtain ⟨left, kind, ahead, -⟩ := opening.expect (by decide)
  rw [ahead]
  exact ⟨v.ahead, parameters.parameters kind, brace.braced block⟩

theorem Clean.grouped {e : Expression} {left : Token} (kind : left.kind = .leftParen)
    (h : Clean (grouped inner) s e t) : Primary Unextended (left :: s.ahead) e t.ahead := by
  obtain ⟨found, u, inside, h⟩ := h.bind
  obtain ⟨_, v, closing, h⟩ := h.bind
  obtain ⟨rfl, rfl⟩ := h.pure_eq
  obtain ⟨right, closes, ahead, -⟩ := closing.expect (by decide)
  have read : Expr Unextended s.ahead e u.ahead := inside.nextExpression.1
  rw [ahead] at read
  exact .grouped kind read closes

theorem Clean.unary {e : Expression} {token : Token} {op : UnaryOp}
    (kind : unaryOperator? token.kind = some op) (h : Clean (unary inner token op) s e t) :
    Chain Unextended .unary (token :: s.ahead) e t.ahead ∧
      (BindingPower.ofKind t.peek.kind).rank ≤ BindingPower.unary.rank := by
  obtain ⟨operand, u, inside, h⟩ := h.bind
  obtain ⟨rfl, rfl⟩ := h.pure_eq
  exact ⟨.unary kind inside.nextExpression.1, inside.nextExpression.2⟩

theorem Clean.alternative {other : Option Block} (h : Clean (alternative limit inner) s other t) :
    Alternative Unextended s.ahead other t.ahead := by
  have h := h.peek
  by_cases sino : s.peek.kind = .sino
  · simp only [sino] at h
    obtain ⟨_, u, brace, h⟩ := h.advance.bind
    obtain ⟨b, v, block, h⟩ := h.bind
    obtain ⟨rfl, rfl⟩ := h.pure_eq
    rw [State.ahead_of_kind sino brace.sane.finish (by decide)]
    exact .sino sino (brace.braced block)
  · by_cases sinosi : s.peek.kind = .sinosi
    · simp only [sinosi] at h
      have left := State.ahead_of_kind sinosi h.sane.finish (by decide)
      -- the nested conditional keeps `sinosi` as its token
      have here : s.advance.current = s.peek := rfl
      obtain ⟨chained, u, one, h⟩ := h.advance.current.bind
      obtain ⟨rfl, rfl⟩ := h.pure_eq
      obtain ⟨v, deeper, rfl⟩ := one.nested
      obtain ⟨c, b, further, rfl, branches⟩ := sound.conditional deeper
      rw [here, left]
      exact .sinosi sinosi branches
    · split at h
      · exact absurd (by assumption) sino
      · exact absurd (by assumption) sinosi
      · obtain ⟨rfl, rfl⟩ := h.pure_eq
        exact .none

set_option synthInstance.maxSize 400 in
theorem Clean.conditional {token : Token} {e : Expression}
    (h : Clean (conditional limit inner token) s e t) :
    ∃ c b other, e = .conditional token c b other ∧
      Branches Unextended s.ahead c b other t.ahead := by
  obtain ⟨_, u, opening, h⟩ := h.bind
  obtain ⟨c, v, condition, h⟩ := h.bind
  obtain ⟨_, w, closing, h⟩ := h.bind
  obtain ⟨_, x, brace, h⟩ := h.bind
  obtain ⟨b, y, block, h⟩ := h.bind
  obtain ⟨other, z, otherwise, h⟩ := h.bind
  obtain ⟨rfl, rfl⟩ := h.pure_eq
  obtain ⟨left, leftKind, leftAhead, -⟩ := opening.expect (by decide)
  obtain ⟨right, rightKind, rightAhead, -⟩ := closing.expect (by decide)
  have asked : Expr Unextended u.ahead c v.ahead := condition.nextExpression.1
  have braced := brace.braced block
  rw [rightAhead] at asked
  rw [leftAhead]
  exact ⟨c, b, other, rfl, .mk leftKind asked rightKind braced otherwise.alternative⟩

theorem Clean.property {p : Property} (h : Clean (property inner) s p t) :
    Entry Unextended s.ahead p t.ahead := by
  obtain ⟨key, u, named, h⟩ := h.bind
  have name := named.expectIdentifier
  have h := h.peek
  by_cases colon : u.peek.kind = .colon
  · rw [if_pos colon] at h
    obtain ⟨v, w, value, h⟩ := h.advance.bind
    obtain ⟨rfl, rfl⟩ := h.pure_eq
    rw [State.ahead_of_kind colon value.sane.finish (by decide)] at name
    generalize s.ahead = ts at name
    cases name with
    | mk kind => exact .value kind colon value.nextExpression.1
  · rw [if_neg colon] at h
    obtain ⟨rfl, rfl⟩ := h.pure_eq
    generalize s.ahead = ts at name
    cases name with
    | mk kind => exact .key kind

/-- A comma may stand between the last property and the closing brace. -/
def Trailing (mid rest : List Token) : Prop :=
  mid = rest ∨ ∃ comma right us, comma.kind = .comma ∧ right.kind = .rightCurly ∧
    mid = comma :: right :: us ∧ rest = right :: us

theorem Clean.moreProperties {ts : List Token} {p : Property} {ps : List Property}
    (first : Entry Unextended ts p s.ahead) (h : Clean (moreProperties bound inner) s ps t) :
    ∃ mid, Separated (Entry Unextended) ts (p :: ps) mid ∧ Trailing mid t.ahead := by
  have stops {s t : State} (h : Clean (commaProperty inner) s none t) :
      Trailing s.ahead t.ahead := by
    have h := h.peek
    by_cases comma : s.peek.kind = .comma
    · rw [if_pos comma] at h
      have left := State.ahead_of_kind comma h.sane.finish (by decide)
      have h := h.advance.peek
      by_cases closing : s.advance.peek.kind = .rightCurly
      · rw [if_pos closing] at h
        obtain ⟨-, rfl⟩ := h.pure_eq
        -- a comma right before the brace belongs to no property
        have brace := State.ahead_of_kind closing h.sane.finish (by decide)
        exact .inr ⟨_, _, _, comma, closing, left.trans (congrArg _ brace), brace⟩
      · rw [if_neg closing] at h
        obtain ⟨a, u, _, rest⟩ := h.bind
        cases rest.run
    · rw [if_neg comma] at h
      obtain ⟨-, rfl⟩ := h.pure_eq
      exact .inl rfl
  have goes {s t : State} {found : List Property}
      (h : Clean (commaProperty inner) s (some found) t) :
      ∃ a comma us, found = [a] ∧ comma.kind = .comma ∧ s.ahead = comma :: us ∧
        Entry Unextended us a t.ahead := by
    have h := h.peek
    by_cases comma : s.peek.kind = .comma
    · rw [if_pos comma] at h
      have left := State.ahead_of_kind comma h.sane.finish (by decide)
      have h := h.advance.peek
      by_cases closing : s.advance.peek.kind = .rightCurly
      · rw [if_pos closing] at h
        cases h.run
      · rw [if_neg closing] at h
        obtain ⟨a, u, one, rest⟩ := h.bind
        obtain ⟨same, rfl⟩ := rest.pure_eq
        cases same
        exact ⟨a, s.peek, _, rfl, comma, left, one.property⟩
    · rw [if_neg comma] at h
      cases h.run
  exact separated_of_collect stops goes bound first h

theorem Clean.properties {ps : List Property} (h : Clean (properties bound inner) s ps t) :
    (ps = [] ∧ t = s) ∨
      ∃ mid, Separated (Entry Unextended) s.ahead ps mid ∧ Trailing mid t.ahead := by
  have h := h.peek
  by_cases closing : s.peek.kind = .rightCurly
  · rw [if_pos closing] at h
    exact .inl h.pure_eq
  · rw [if_neg closing] at h
    obtain ⟨first, u, one, h⟩ := h.bind
    obtain ⟨more, v, others, h⟩ := h.bind
    obtain ⟨rfl, rfl⟩ := h.pure_eq
    exact .inr (others.moreProperties one.property)

theorem Clean.object {token : Token} {e : Expression} (kind : token.kind = .leftCurly)
    (h : Clean (object bound inner token) s e t) :
    Primary Unextended (token :: s.ahead) e t.ahead := by
  obtain ⟨ps, u, found, h⟩ := h.bind
  obtain ⟨_, v, close, h⟩ := h.bind
  obtain ⟨rfl, rfl⟩ := h.pure_eq
  obtain ⟨right, closes, ahead, -⟩ := close.expect (by decide)
  rcases found.properties with ⟨rfl, rfl⟩ | ⟨mid, all, rfl | trailing⟩
  · rw [ahead]
    exact .object kind (.none closes)
  · rw [ahead] at all
    exact .object kind (.some all closes)
  · obtain ⟨comma, curly, us, commaKind, -, rfl, same⟩ := trailing
    rw [ahead] at same
    cases same
    exact .object kind (.comma all commaKind closes)

/-- A run that read an operand read a primary, or one with operators before it, which the next token
does not extend. -/
theorem Clean.operand {e : Expression} (h : Clean (operand limit bound inner) s e t) :
    Primary Unextended s.tokens e t.ahead ∨
      Chain Unextended .unary s.tokens e t.ahead ∧
        (BindingPower.ofKind t.peek.kind).rank ≤ BindingPower.unary.rank := by
  have h := h.current
  have here {kind : Token.Kind} (found : s.current.kind = kind)
      (before : kind ≠ .endOfInput) :
      s.tokens = s.current :: s.ahead ∧ s.current.Lexed := by
    have left := State.tokens_eq_cons h.sane.finish (found ▸ before)
    exact ⟨left, h.sane.lexed _ (left ▸ List.mem_cons_self)⟩
  cases kind : s.current.kind <;> simp only [kind] at h
  case identifier =>
    obtain ⟨rfl, rfl⟩ := h.pure_eq
    rw [(here kind (by decide)).1]
    exact .inl (.name kind)
  case integer =>
    cases value : Number.readInteger? s.current.text with
    | none => simp only [value] at h; exact h.failHere.elim
    | some n =>
      simp only [value] at h
      obtain ⟨rfl, rfl⟩ := h.pure_eq
      obtain ⟨left, lexed⟩ := here kind (by decide)
      rw [left]
      exact .inl (.literal (literal_of_integer lexed kind value))
  case float =>
    cases value : Number.read? s.current.text with
    | none => simp only [value] at h; exact h.failHere.elim
    | some x =>
      simp only [value] at h
      obtain ⟨rfl, rfl⟩ := h.pure_eq
      obtain ⟨left, lexed⟩ := here kind (by decide)
      rw [left]
      exact .inl (.literal (literal_of_float lexed kind value))
  case verdadero =>
    obtain ⟨rfl, rfl⟩ := h.pure_eq
    rw [(here kind (by decide)).1]
    exact .inl (.literal (.verdadero kind))
  case falso =>
    obtain ⟨rfl, rfl⟩ := h.pure_eq
    rw [(here kind (by decide)).1]
    exact .inl (.literal (.falso kind))
  case string =>
    obtain ⟨rfl, rfl⟩ := h.pure_eq
    rw [(here kind (by decide)).1]
    exact .inl (.literal (.string kind))
  case bang =>
    rw [(here kind (by decide)).1]
    exact .inr (h.unary (by rw [kind]; rfl))
  case minus =>
    rw [(here kind (by decide)).1]
    exact .inr (h.unary (by rw [kind]; rfl))
  case leftParen =>
    rw [(here kind (by decide)).1]
    exact .inl (h.grouped kind)
  case func =>
    obtain ⟨⟨names, body⟩, u, rest, h⟩ := h.bind
    obtain ⟨rfl, rfl⟩ := h.pure_eq
    obtain ⟨us, parameters, block⟩ := rest.functionRest
    rw [(here kind (by decide)).1]
    exact .inl (.function kind parameters block)
  case si =>
    obtain ⟨c, b, other, rfl, branches⟩ := h.conditional
    rw [(here kind (by decide)).1]
    exact .inl (.conditional kind branches)
  case leftCurly =>
    rw [(here kind (by decide)).1]
    exact .inl (h.object kind)
  all_goals exact h.failHere.elim

theorem Clean.arguments {values : List Expression} (h : Clean (arguments bound inner) s values t) :
    Arguments Unextended s.ahead values t.ahead := by
  have h := h.peek
  by_cases closing : s.peek.kind = .rightParen
  · rw [if_pos closing] at h
    obtain ⟨rfl, rfl⟩ := h.advance.pure_eq
    rw [State.ahead_of_kind closing h.sane.finish (by decide)]
    exact .none closing
  · rw [if_neg closing] at h
    obtain ⟨first, u, one, h⟩ := h.bind
    obtain ⟨more, v, others, h⟩ := h.bind
    obtain ⟨_, w, close, h⟩ := h.bind
    obtain ⟨rfl, rfl⟩ := h.pure_eq
    have read {s t : State} {e : Expression}
        (h : Clean (Parser.nextExpression inner .lowest) s e t) :
        Expr Unextended s.ahead e t.ahead := h.nextExpression.1
    have all := others.commaSeparated read (read one)
    obtain ⟨right, closes, ahead, -⟩ := close.expect (by decide)
    rw [ahead] at all
    exact .some all closes

theorem Clean.assignment {token : Token} {ts : List Token} {left e : Expression}
    (read : Expr Unextended ts left (token :: s.ahead)) (kind : token.kind = .assign)
    (h : Clean (assignment inner token left) s e t) :
    Expr Unextended ts e t.ahead ∧ (BindingPower.ofKind t.peek.kind).rank ≤ 0 := by
  unfold Parser.assignment at h
  split at h
  · obtain ⟨value, u, inside, h⟩ := h.bind
    obtain ⟨rfl, rfl⟩ := h.pure_eq
    exact ⟨.assign read.target kind inside.nextExpression.1, inside.nextExpression.2⟩
  · exact h.failHere.elim

/-- An operator folded onto an expression of its own stratum or a tighter one gives an expression of
its stratum, which the next token does not extend from inside. -/
theorem Clean.extend {ts : List Token} {left e : Expression}
    (read : At Unextended (BindingPower.ofKind s.current.kind).rank ts left s.tokens)
    (binds : 0 < (BindingPower.ofKind s.current.kind).rank)
    (h : Clean (extend bound inner left) s e t) :
    At Unextended (BindingPower.ofKind s.current.kind).rank ts e t.ahead ∧
      (BindingPower.ofKind t.peek.kind).rank ≤ (BindingPower.ofKind s.current.kind).rank := by
  have h := h.current
  -- the end of input binds nothing
  have before : s.current.kind ≠ .endOfInput := by
    intro ended
    rw [ended] at binds
    cases binds
  rw [State.tokens_eq_cons h.sane.finish before] at read
  cases binary : BinaryOp.ofKind? s.current.kind with
  | some op =>
    simp only [binary] at h
    obtain ⟨right, u, inside, h⟩ := h.bind
    obtain ⟨rfl, rfl⟩ := h.pure_eq
    obtain ⟨operand, next⟩ := inside.nextExpression
    obtain ⟨level, operator⟩ := Level.exists_operator? binary
    -- the stratum of an operator is its level, and that of its right operand is one tighter
    rw [Level.ofKind_of_operator? operator] at read operand next ⊢
    rw [at_power] at read ⊢
    rw [at_inside_power] at operand
    exact ⟨.binary read operator operand, next⟩
  | none =>
    simp only [binary] at h
    cases kind : s.current.kind <;> rw [kind] at binary read binds <;> simp only [kind] at h
    case assign =>
      obtain ⟨assigned, next⟩ := h.assignment read kind
      exact ⟨assigned, Nat.le_succ_of_le next⟩
    case leftParen =>
      obtain ⟨values, u, found, h⟩ := h.bind
      obtain ⟨rfl, rfl⟩ := h.pure_eq
      exact ⟨.call read kind found.arguments, BindingPower.rank_le_call _⟩
    case dot =>
      obtain ⟨name, u, found, h⟩ := h.bind
      obtain ⟨rfl, rfl⟩ := h.pure_eq
      have named := found.expectIdentifier
      generalize s.ahead = us at read named
      cases named with
      | mk identifier => exact ⟨.member read kind identifier, BindingPower.rank_le_call _⟩
    case leftBracket =>
      obtain ⟨key, u, inside, h⟩ := h.bind
      obtain ⟨_, v, closing, h⟩ := h.bind
      obtain ⟨rfl, rfl⟩ := h.pure_eq
      obtain ⟨right, closes, ahead, -⟩ := closing.expect (by decide)
      have looked : Expr Unextended s.ahead key u.ahead := inside.nextExpression.1
      rw [ahead] at looked
      exact ⟨.index read kind looked closes, BindingPower.rank_le_call _⟩
    -- the other kinds are operators between operands, or bind nothing
    all_goals first | cases binary; done | exact absurd binds (Nat.not_lt_zero _)

/-- The loop over operators, started with an expression of stratum `r` that the next token does not
extend from inside, ends with an expression of the stratum inside `power`. -/
theorem Clean.operators {power : BindingPower} {ts : List Token} (n : Nat) :
    ∀ {r : Nat} {left e : Expression} {s t : State}, At Unextended r ts left s.ahead →
      (BindingPower.ofKind s.peek.kind).rank ≤ r → power.inside ≤ r →
      Clean (operators limit bound inner power n left) s e t →
      At Unextended power.inside ts e t.ahead ∧
        (BindingPower.ofKind t.peek.kind).rank ≤ power.rank := by
  induction n with
  | zero =>
    intro r left e s t _ _ _ h
    exact h.exhausted.elim
  | succ n ih =>
    intro r left e s t read next inside h
    have h := h.peek
    by_cases binds : power < .ofKind s.peek.kind
    · rw [if_pos binds] at h
      obtain ⟨_, u, entering, h⟩ := h.bind
      obtain ⟨-, rfl⟩ := enter_eq_ok entering.run
      obtain ⟨wider, v, extending, h⟩ := h.advance.bind
      -- the operator is at least as tight as `power` asks and no tighter than what it extends
      have stronger : power.rank < (BindingPower.ofKind s.peek.kind).rank := binds
      obtain ⟨folded, after⟩ := extending.extend (read.mono next) (Nat.zero_lt_of_lt stronger)
      exact ih folded after (Nat.le_trans (Nat.min_le_left _ _) stronger) h
    · rw [if_neg binds] at h
      obtain ⟨rfl, rfl⟩ := h.pure_eq
      -- the loop stops: what was read is at least as tight as `power` asks
      exact ⟨read.mono inside, Nat.not_lt.1 binds⟩

theorem Clean.expression {power : BindingPower} {e : Expression}
    (h : Clean (expression limit bound inner power) s e t) :
    At Unextended power.inside s.tokens e t.ahead ∧
      (BindingPower.ofKind t.peek.kind).rank ≤ power.rank := by
  obtain ⟨u, deeper, rfl⟩ := h.nested
  obtain ⟨first, v, operand, rest⟩ := deeper.bind
  obtain ⟨w, operators, rfl⟩ := rest.keepingDepth
  -- a primary can be applied, an operand with operators before it cannot
  rcases operand.operand with primary | ⟨unary, next⟩
  · have read : At Unextended BindingPower.call.rank s.tokens first v.ahead := .primary primary
    have loose : power.inside ≤ BindingPower.call.rank :=
      Nat.le_trans (Nat.min_le_right _ _) (by decide)
    have both := Clean.operators bound read (BindingPower.rank_le_call _) loose operators
    exact both
  · have read : At Unextended BindingPower.unary.rank s.tokens first v.ahead := unary
    have both := Clean.operators bound read next (Nat.min_le_right _ _) operators
    exact both

/-! ## Statements -/

omit sound [inner.Onward] in
/-- A statement ends with a semicolon, or before tokens that may follow it. -/
theorem Clean.skipSemicolon {follow : List Token → Prop} (h : Clean skipSemicolon s () t)
    (otherwise : s.peek.kind ≠ .semicolon → follow s.ahead) : Ended follow s.ahead t.ahead := by
  have run := h.run
  rw [skipSemicolon_apply] at run
  cases run
  by_cases semicolon : s.peek.kind = .semicolon
  · rw [if_pos semicolon, State.ahead_of_kind semicolon h.sane.finish (by decide)]
    exact .semicolon semicolon
  · rw [if_neg semicolon]
    exact .nothing (otherwise semicolon)

omit sound [inner.Onward] in
/-- A token that binds nothing extends no expression. -/
theorem State.unextended (next : (BindingPower.ofKind s.peek.kind).rank ≤ 0) :
    Unextended s.ahead := by
  intro token first
  obtain ⟨rest, ahead⟩ := List.head?_eq_some_iff.1 first
  rw [State.peek_of_ahead ahead] at next
  constructor <;> intro kind <;> rw [kind] at next <;> cases next

theorem Clean.declaration {statement : Statement} (left : s.tokens = s.current :: s.ahead)
    (kind : s.current.kind = .var ∨ s.current.kind = .constant)
    (h : Clean (declaration inner) s statement t) :
    Clause Unextended s.tokens statement t.ahead := by
  obtain ⟨name, u, named, h⟩ := h.current.bind
  have found := named.expectIdentifier
  have h := h.peek
  rw [left]
  by_cases equals : u.peek.kind = .assign
  · rw [if_pos equals] at h
    rw [State.ahead_of_kind equals h.sane.finish (by decide)] at found
    obtain ⟨value, v, inside, h⟩ := h.advance.bind
    obtain ⟨_, w, ending, h⟩ := h.bind
    obtain ⟨rfl, rfl⟩ := h.pure_eq
    obtain ⟨read, next⟩ := inside.nextExpression
    have ended := ending.skipSemicolon fun _ => State.unextended next
    generalize s.ahead = us at found
    cases found with
    | mk identifier => exact .declaration kind identifier equals read ended
  · rw [if_neg equals] at h
    obtain ⟨_, v, ending, h⟩ := h.bind
    have ended : Ended Anything u.ahead v.ahead := ending.skipSemicolon fun _ => trivial
    rcases kind with var | constant
    · simp only [var] at h
      obtain ⟨rfl, rfl⟩ := h.pure_eq
      generalize s.ahead = us at found
      cases found with
      | mk identifier => exact .uninitialized var identifier ended
    -- a constant without a value is an error
    · simp only [constant] at h
      cases h.run

theorem Clean.result {statement : Statement} (left : s.tokens = s.current :: s.ahead)
    (kind : s.current.kind = .regresa) (h : Clean (result inner) s statement t) :
    Clause Unextended s.tokens statement t.ahead := by
  obtain ⟨value, u, found, h⟩ := h.current.bind
  obtain ⟨_, v, ending, h⟩ := h.bind
  obtain ⟨rfl, rfl⟩ := h.pure_eq
  rw [left]
  have found := found.peek
  split at found
  case h_4 =>
    obtain ⟨e, rfl, inside⟩ := found.map_some
    obtain ⟨read, next⟩ := inside.nextExpression
    exact .result kind read (ending.skipSemicolon fun _ => State.unextended next)
  all_goals
    rename_i next
    obtain ⟨rfl, rfl⟩ := found.pure_eq
    refine .bare kind ?_ (ending.skipSemicolon fun _ => trivial)
    intro token first
    obtain ⟨rest, ahead⟩ := List.head?_eq_some_iff.1 first
    rw [State.peek_of_ahead ahead] at next
  · exact .inl next
  · exact .inr next
  -- the end of input is no token among those ahead
  · have member : token ∈ u.ahead := by
      rw [ahead]
      exact List.mem_cons_self
    exact absurd next (ending.sane.lexed token (List.mem_of_mem_tail member)).not_end

theorem Clean.function {statement : Statement} (left : s.tokens = s.current :: s.ahead)
    (kind : s.current.kind = .func) (h : Clean (function bound inner) s statement t) :
    Clause Unextended s.tokens statement t.ahead := by
  obtain ⟨name, u, named, h⟩ := h.current.bind
  obtain ⟨⟨names, body⟩, v, rest, h⟩ := h.bind
  obtain ⟨_, w, ending, h⟩ := h.bind
  obtain ⟨rfl, rfl⟩ := h.pure_eq
  obtain ⟨us, parameters, block⟩ := rest.functionRest
  have ended : Ended Anything v.ahead t.ahead := ending.skipSemicolon fun _ => trivial
  have found := named.expectIdentifier
  rw [left]
  generalize s.ahead = ts at found
  cases found with
  | mk identifier => exact .function kind identifier parameters block ended

/-- A statement is one of the grammar, or nothing where a semicolon stands alone. -/
theorem Clean.statement {found : Option Statement} (left : s.tokens = s.current :: s.ahead)
    (h : Clean (statement bound inner) s found t) :
    (found = none ∧ s.current.kind = .semicolon ∧ t = s) ∨
      ∃ one, found = some one ∧ Clause Unextended s.tokens one t.ahead := by
  have h := h.current
  split at h
  case h_1 semicolon =>
    obtain ⟨rfl, rfl⟩ := h.pure_eq
    exact .inl ⟨rfl, semicolon, rfl⟩
  case h_2 var =>
    obtain ⟨one, rfl, read⟩ := h.map_some
    exact .inr ⟨one, rfl, read.declaration left (.inl var)⟩
  case h_3 constant =>
    obtain ⟨one, rfl, read⟩ := h.map_some
    exact .inr ⟨one, rfl, read.declaration left (.inr constant)⟩
  case h_4 regresa =>
    obtain ⟨one, rfl, read⟩ := h.map_some
    exact .inr ⟨one, rfl, read.result left regresa⟩
  case h_5 =>
    have h := h.peek
    by_cases named : s.current.kind = .func ∧ s.peek.kind = .identifier
    · rw [if_pos named] at h
      obtain ⟨one, rfl, read⟩ := h.map_some
      exact .inr ⟨one, rfl, read.function left named.1⟩
    · rw [if_neg named] at h
      obtain ⟨value, u, inside, h⟩ := h.bind
      obtain ⟨_, v, ending, h⟩ := h.bind
      obtain ⟨rfl, rfl⟩ := h.pure_eq
      obtain ⟨read, next⟩ := sound.expression inside
      have ended := ending.skipSemicolon fun _ => State.unextended next
      rw [left] at read ⊢
      exact .inr ⟨_, rfl, .expression read ended⟩

/-- An item adds to the items after it. -/
theorem Clean.item {found more : List Statement} {rest : List Token}
    (left : s.tokens = s.current :: s.ahead) (h : Clean (item bound inner) s found t)
    (after : Items Unextended t.tokens more rest) :
    Items Unextended s.tokens (found ++ more) rest := by
  obtain ⟨read, u, one, h⟩ := h.bind
  obtain ⟨rfl, rfl⟩ := h.advance.pure_eq
  rcases one.recovering.statement left with ⟨rfl, semicolon, rfl⟩ | ⟨found, rfl, clause⟩
  · rw [left]
    exact .semicolon semicolon after
  · exact .statement clause after

/-- A repetition of items reads a list of them, and ends where a round yields nothing. -/
theorem items_of_collect {round : Parser (Option (List Statement))} [Onward round]
    {ends : State → Prop} (stops : ∀ {s t : State}, Clean round s none t → t = s ∧ ends s)
    (goes : ∀ {s t : State} {found : List Statement}, Clean round s (some found) t →
      s.tokens = s.current :: s.ahead ∧ Clean (item bound inner) s found t) (n : Nat) :
    ∀ {s t : State} {statements : List Statement}, Clean (collect round n) s statements t →
      Items Unextended s.tokens statements t.tokens ∧ ends t := by
  induction n with
  | zero =>
    intro s t statements h
    exact h.exhausted.elim
  | succ n ih =>
    intro s t statements h
    rcases h.collect with ⟨rfl, stop⟩ | ⟨found, u, more, rfl, go, rest⟩
    · obtain ⟨rfl, ended⟩ := stops stop
      exact ⟨.done, ended⟩
    · obtain ⟨left, one⟩ := goes go
      obtain ⟨items, ended⟩ := ih rest
      exact ⟨one.item left items, ended⟩

theorem Clean.block {b : Block} {left : Token} (h : Clean (block bound inner) s b t)
    (tokens : s.tokens = left :: s.ahead) (kind : left.kind = .leftCurly) :
    Body Unextended s.tokens b t.ahead := by
  have h := h.current
  rw [State.current_of_tokens tokens] at h
  obtain ⟨statements, u, read, h⟩ := h.advance.bind
  obtain ⟨rfl, rfl⟩ := h.pure_eq
  have stops {s t : State} (h : Clean (blockItem bound inner left) s none t) :
      t = s ∧ s.current.kind = .rightCurly := by
    by_cases closing : s.current.kind = .rightCurly
    · have run := h.run
      rw [blockItem_of_rightCurly left closing] at run
      cases run
      exact ⟨rfl, closing⟩
    · have run := h.run
      by_cases ended : s.current.kind = .endOfInput
      · rw [blockItem_of_endOfInput left ended] at run
        cases run
      · rw [blockItem_of_ne left closing ended, map_eq_bind] at run
        obtain ⟨_, _, _, last⟩ := bind_eq_ok_iff.1 run
        cases last
  have goes {s t : State} {found : List Statement}
      (h : Clean (blockItem bound inner left) s (some found) t) :
      s.tokens = s.current :: s.ahead ∧ Clean (Parser.item bound inner) s found t := by
    obtain ⟨-, before, run⟩ := blockItem_eq_some h.run
    exact ⟨State.tokens_eq_cons h.sane.finish before, h.sane, run, h.errors⟩
  obtain ⟨items, closing⟩ := items_of_collect stops goes bound read
  have final := h.sane
  -- the repetition stopped on the closing brace
  rw [State.tokens_eq_cons final.finish (by rw [closing]; nofun)] at items
  rw [tokens]
  exact .mk kind items closing

instance : (inner.next limit bound).Sound where
  expression h := Clean.expression h
  block h := Clean.block h
  conditional h := Clean.conditional h

end Productions

instance sound_upTo (limit n : Nat) : (Productions.upTo limit n).Sound := by
  induction n with
  | zero => exact ⟨fun h => h.exhausted.elim, fun h => h.exhausted.elim, fun h => h.exhausted.elim⟩
  | succ n ih => exact inferInstanceAs ((Productions.upTo limit n).next limit (n + 1)).Sound

/-- A program read without an error is derived from all the tokens. -/
theorem Clean.program {limit : Nat} {s t : State} {p : Program}
    (h : Clean (program limit) s p t) : Derives Unextended s.tokens p := by
  have stops {n : Nat} {s t : State}
      (h : Clean (programItem (n + 1) (Productions.upTo limit n)) s none t) :
      t = s ∧ s.tokens = [] := by
    obtain ⟨same, ended⟩ := programItem_eq_none h.run
    exact ⟨same, h.sane.tokens_eq_nil ended⟩
  have goes {n : Nat} {s t : State} {found : List Statement}
      (h : Clean (programItem (n + 1) (Productions.upTo limit n)) s (some found) t) :
      s.tokens = s.current :: s.ahead ∧
        Clean (Parser.item (n + 1) (Productions.upTo limit n)) s found t := by
    obtain ⟨before, run⟩ := programItem_eq_some h.run
    exact ⟨State.tokens_eq_cons h.sane.finish before, h.sane, run, h.errors⟩
  have read : Clean (Bounded.collect (programItem (s.tokens.length + 2)
      (Productions.upTo limit (s.tokens.length + 1))) (s.tokens.length + 2)) s p t :=
    ⟨h.sane, h.run, h.errors⟩
  obtain ⟨items, ended⟩ := items_of_collect stops goes _ read
  rw [ended] at items
  exact items

end Guion.Parser
