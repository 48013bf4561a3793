import Guion.Proofs.Number.Literals
import Guion.Proofs.Parser.Finishing
import Guion.Proofs.Parser.Precedence

/-!
# What is derived is read

Where the tokens ahead derive a tree and there is room for it, the production for that tree yields
it and stops right after its tokens (`Reads`).  Room is a level of nesting and a unit of the bound
for each token left (`State.Roomy`), so that every way back into a production, which uses a token
up, finds it again.

The loop over operators reads the left spine of a derivation round by round: `Folds` says that after
some rounds it holds the tree derived so far, that each round used a level of nesting, and that it
used a token for each of them.
-/

set_option autoImplicit false

namespace Guion.Parser

open Bounded Grammar

variable {α β : Type} {limit n : Nat}

/-! ## Room -/

/-- The state with other tokens before it. -/
def State.onto (s : State) (ts : List Token) : State := { s with tokens := ts }

@[simp] theorem State.ahead_onto (s : State) (t : Token) (ts : List Token) :
    (s.onto (t :: ts)).ahead = ts := rfl

/-- There is room for each token after the current one. -/
structure State.Roomy (limit n : Nat) (s : State) : Prop where
  sane : s.Sane
  short : s.ahead.length < n
  shallow : s.depth + s.ahead.length ≤ limit

/-- There is room for each token left. -/
structure State.Fits (limit n : Nat) (s : State) : Prop where
  sane : s.Sane
  short : s.tokens.length < n
  shallow : s.depth + s.tokens.length ≤ limit

theorem State.length_ahead (s : State) : s.ahead.length = s.tokens.length - 1 :=
  List.length_tail

theorem State.Fits.roomy {s : State} (h : s.Fits limit n) : s.Roomy limit n := by
  have less := s.length_ahead
  have short := h.short
  have shallow := h.shallow
  exact ⟨h.sane, by omega, by omega⟩

theorem State.Roomy.advance {s : State} (h : s.Roomy limit n) : s.advance.Fits limit n :=
  ⟨h.sane.onward s.ahead_advance, h.short, h.shallow⟩

/-- With room for the current token, there is a level to enter, and room for the others inside. -/
theorem State.Fits.deeper {s : State} {t : Token} {ts : List Token} (h : s.Fits limit n)
    (tokens : s.tokens = t :: ts) :
    s.depth < limit ∧ ({ s with depth := s.depth + 1 } : State).Roomy limit (n - 1) := by
  have short := h.short
  have shallow := h.shallow
  have ahead : s.ahead = ts := by rw [State.ahead, tokens, List.tail_cons]
  rw [tokens, List.length_cons] at short shallow
  -- the current token pays for the level, so both bounds drop by one
  refine ⟨by omega, ⟨h.sane.finish, h.sane.lexed⟩, ?_, ?_⟩
  · show s.ahead.length < n - 1
    rw [ahead]
    omega
  · show s.depth + 1 + s.ahead.length ≤ limit
    rw [ahead]
    omega

theorem State.Roomy.onto {s : State} {ts : List Token} (h : s.Roomy limit n)
    (suffix : ts <:+ s.tokens) : (s.onto ts).Roomy limit n := by
  have ahead : s.Ahead (s.onto ts) := ⟨suffix, rfl, List.prefix_refl _⟩
  have less := ahead.length_ahead_le
  have short := h.short
  have shallow : s.depth + s.ahead.length ≤ limit := h.shallow
  refine ⟨h.sane.onward ahead, by omega, ?_⟩
  show s.depth + (s.onto ts).ahead.length ≤ limit
  omega

theorem State.Fits.onto {s : State} {ts : List Token} (h : s.Fits limit n)
    (suffix : ts <:+ s.tokens) : (s.onto ts).Fits limit n := by
  have ahead : s.Ahead (s.onto ts) := ⟨suffix, rfl, List.prefix_refl _⟩
  have less := suffix.length_le
  have short := h.short
  have shallow := h.shallow
  refine ⟨h.sane.onward ahead, Nat.lt_of_le_of_lt less short, ?_⟩
  show s.depth + ts.length ≤ limit
  omega

/-! ## Runs that stop after what they read -/

/-- With room, the run from `s` yields `a` and stops with `rest` ahead.  Nothing else changes. -/
def Reads (limit n : Nat) (p : Parser α) (s : State) (a : α) (rest : List Token) : Prop :=
  s.Roomy limit n → ∃ last, p s = .ok a (s.onto (last :: rest))

section Reads

variable {p : Parser α} {f : α → Parser β} {s : State} {a : α} {b : β} {mid rest : List Token}

theorem Reads.bind [Onward p] (first : Reads limit n p s a mid)
    (then_ : ∀ last, Reads limit n (f a) (s.onto (last :: mid)) b rest) :
    Reads limit n (p >>= f) s b rest := by
  intro room
  obtain ⟨last, run⟩ := first room
  have suffix : last :: mid <:+ s.tokens := (Keeps.ok (R := State.Ahead) run).tokens
  rw [bind_of_ok run]
  exact then_ last (room.onto suffix)

theorem Reads.pure (last : Token) : Reads limit n (pure a) (s.onto (last :: rest)) a rest :=
  fun _ => ⟨last, rfl⟩

theorem Reads.current {f : Token → Parser β} (h : Reads limit n (f s.current) s b rest) :
    Reads limit n (current >>= f) s b rest := h

theorem Reads.peek {f : Token → Parser β} (h : Reads limit n (f s.peek) s b rest) :
    Reads limit n (peek >>= f) s b rest := h

theorem Reads.advance {f : Unit → Parser β} {t : Token} {us : List Token}
    (ahead : s.ahead = t :: us) (h : Reads limit n (f ()) (s.onto (t :: us)) b rest) :
    Reads limit n (advance >>= f) s b rest := by
  intro room
  have same : s.advance = s.onto (t :: us) := by rw [← ahead]; rfl
  rw [advance_bind, same]
  exact h (room.onto (ahead ▸ List.tail_suffix _))

theorem Reads.expect {f : Unit → Parser β} {kind : Token.Kind} {t : Token} {us : List Token}
    (ahead : s.ahead = t :: us) (found : t.kind = kind)
    (h : Reads limit n (f ()) (s.onto (t :: us)) b rest) :
    Reads limit n (expect kind >>= f) s b rest := by
  intro room
  have next : s.peek.kind = kind := by rw [State.peek_of_ahead ahead, found]
  rw [bind_of_ok (expect_of_kind next)]
  exact Reads.advance (f := f) ahead h room

theorem Reads.expectIdentifier {ts : List Token} {name : Identifier} (ahead : s.ahead = ts)
    (h : Name ts name rest) : Reads limit n expectIdentifier s name rest := by
  cases h with
  | mk kind => exact .expect ahead kind (.current (.pure _))

end Reads

/-! ## Items with commas between them -/

section Repetition

variable {round : Parser (Option (List α))} {s : State} {mid rest : List Token}

theorem Reads.collect_stop {k : Nat} (stop : Reads limit n round s none rest) :
    Reads limit n (collect round (k + 1)) s [] rest := by
  intro room
  obtain ⟨last, run⟩ := stop room
  exact ⟨last, by rw [collect, bind_of_ok run]; rfl⟩

theorem collect_go {k : Nat} {found more : List α} {u t : State}
    (go : round s = .ok (some found) u) (again : collect round k u = .ok more t) :
    collect round (k + 1) s = .ok (found ++ more) t := by
  rw [collect, bind_of_ok go]
  exact bind_eq_ok_iff.2 ⟨more, t, again, rfl⟩

/-- A repetition reads the items after the first, each after its comma.  What a round leaves has to
be `good` for it to stop there; commas are. -/
theorem reads_collect {item : List Token → α → List Token → Prop} {good : List Token → Prop}
    (goes : ∀ {s : State} {comma : Token} {us : List Token} {a : α} {rest : List Token},
      comma.kind = .comma → s.ahead = comma :: us → item us a rest → good rest →
      s.Roomy limit n →
      ∃ last, round s = .ok (some [a]) (s.onto (last :: rest)) ∧ last :: rest <:+ s.ahead)
    (commas : ∀ {comma : Token} {us : List Token}, comma.kind = .comma → good (comma :: us))
    (stops : ∀ {s : State}, s.ahead = mid → Reads limit n round s none rest) (after : good mid)
    {us : List Token} {as : List α} (separated : Separated item us as mid) :
    ∀ {s : State} {comma : Token} {k : Nat}, comma.kind = .comma → s.ahead = comma :: us →
      s.ahead.length < k → Reads limit n (collect round k) s as rest := by
  induction separated with
  | one first =>
    intro s comma k kind ahead enough room
    obtain ⟨last, run, suffix⟩ := goes kind ahead first after room
    have used := suffix.length_le
    have inside := room.onto (suffix.trans (List.tail_suffix _))
    obtain ⟨k, rfl⟩ := Nat.exists_eq_add_of_lt enough
    -- the last item: one more round finds no comma
    obtain ⟨last', stop⟩ := Reads.collect_stop (k := s.ahead.length + k - 1)
      (stops (s.ahead_onto last _)) inside
    rw [List.length_cons] at used
    have count : s.ahead.length + k - 1 + 1 = s.ahead.length + k := by omega
    rw [count] at stop
    exact ⟨last', collect_go run stop⟩
  | more first next others ih =>
    intro s comma k kind ahead enough room
    obtain ⟨last, run, suffix⟩ := goes kind ahead first (commas next) room
    have used := suffix.length_le
    have inside := room.onto (suffix.trans (List.tail_suffix _))
    obtain ⟨k, rfl⟩ := Nat.exists_eq_add_of_lt enough
    rw [List.length_cons] at used
    -- the round used its comma up, which leaves rounds for the others
    obtain ⟨last', again⟩ := ih stops after next (s.ahead_onto last _)
      (k := s.ahead.length + k) (by rw [State.ahead_onto]; omega) inside
    exact ⟨last', collect_go run again⟩

/-- The first item, and the others after it. -/
theorem reads_separated (round : Parser (Option (List α))) {p : Parser α}
    {item : List Token → α → List Token → Prop} {good : List Token → Prop}
    (reads : ∀ {s : State} {a : α} {rest : List Token},
      item s.ahead a rest → good rest → Reads limit n p s a rest)
    (goes : ∀ {s : State} {comma : Token} {us : List Token} {a : α} {rest : List Token},
      comma.kind = .comma → s.ahead = comma :: us → item us a rest → good rest →
      s.Roomy limit n →
      ∃ last, round s = .ok (some [a]) (s.onto (last :: rest)) ∧ last :: rest <:+ s.ahead)
    (commas : ∀ {comma : Token} {us : List Token}, comma.kind = .comma → good (comma :: us))
    (stops : ∀ {s : State}, s.ahead = mid → Reads limit n round s none rest) (after : good mid)
    {as : List α} (separated : Separated item s.ahead as mid) :
    ∃ a more us, as = a :: more ∧ Reads limit n p s a us ∧
      ∀ last, Reads limit n (collect round (n + 1)) (s.onto (last :: us)) more rest := by
  generalize start : s.ahead = ts at separated
  cases separated with
  | one first =>
    refine ⟨_, [], mid, rfl, reads (start ▸ first) after, fun last => ?_⟩
    exact .collect_stop (stops (s.ahead_onto last mid))
  | more first next others =>
    refine ⟨_, _, _, rfl, reads (start ▸ first) (commas next), fun last room => ?_⟩
    exact reads_collect goes commas stops after others next (s.ahead_onto last _)
      (Nat.lt_succ_of_lt room.short) room

/-- The rounds of `commaSeparated`. -/
theorem commaItem_goes {p : Parser α} [Onward p] {item : List Token → α → List Token → Prop}
    {good : List Token → Prop}
    (reads : ∀ {s : State} {a : α} {rest : List Token},
      item s.ahead a rest → good rest → Reads limit n p s a rest)
    {s : State} {comma : Token} {us : List Token} {a : α} {rest : List Token}
    (kind : comma.kind = .comma) (ahead : s.ahead = comma :: us) (one : item us a rest)
    (after : good rest) (room : s.Roomy limit n) :
    ∃ last, commaItem p s = .ok (some [a]) (s.onto (last :: rest)) ∧ last :: rest <:+ s.ahead := by
  have start : s.advance.ahead = us := by rw [State.ahead, State.tokens_advance, ahead]; rfl
  obtain ⟨last, run⟩ := reads (start ▸ one) after (s := s.advance) room.advance.roomy
  have suffix : last :: rest <:+ s.ahead := (Keeps.ok (R := State.Ahead) run).tokens
  refine ⟨last, ?_, suffix⟩
  rw [commaItem, peek_bind, State.peek_of_ahead ahead, if_pos kind, advance_bind, bind_of_ok run]
  rfl

theorem commaItem_stops {p : Parser α} {t : Token} (other : t.kind ≠ .comma)
    (ahead : s.ahead = t :: rest) : Reads limit n (commaItem p) s none (t :: rest) := by
  intro room
  refine ⟨s.current, ?_⟩
  rw [commaItem, peek_bind, State.peek_of_ahead ahead, if_neg other, ← State.tokens_of_ahead ahead]
  rfl

end Repetition

theorem reads_parameters {s : State} {left : Token} {ts : List Token} {names : List Identifier}
    {rest : List Token} (ahead : s.ahead = ts) (h : Parameters (left :: ts) names rest) :
    Reads limit n (parameters (n + 1)) s names rest := by
  refine .peek ?_
  cases h with
  | none _ right =>
    rw [State.peek_of_ahead ahead, if_pos right]
    exact .advance ahead (.pure _)
  | some _ inside right =>
    have other : s.peek.kind ≠ .rightParen := by
      obtain ⟨_, _, first⟩ := inside.first
      obtain ⟨t, us, rfl, kind⟩ := first.starts
      rw [State.peek_of_ahead ahead, kind]
      nofun
    rw [if_neg other]
    -- names stop by themselves, so any tokens may follow one
    have name {s : State} {a : Identifier} {rest : List Token} (one : Name s.ahead a rest)
        (_ : True) : Reads limit n expectIdentifier s a rest := .expectIdentifier rfl one
    rw [← ahead] at inside
    obtain ⟨first, more, us, rfl, one, others⟩ := reads_separated _ name
      (commaItem_goes name) (fun _ => trivial) (commaItem_stops (by rw [right]; nofun)) trivial
      inside
    apply one.bind
    intro last
    apply (others last).bind
    intro _
    exact .expect rfl right (.pure _)

/-! ## Expressions -/

/-- The next token is no other branch of a conditional. -/
def NoElse (rest : List Token) : Prop :=
  ∀ t ∈ rest.head?, t.kind ≠ .sino ∧ t.kind ≠ .sinosi

/-- The next token neither binds more strongly than `power` nor is another branch. -/
def Stops (power : BindingPower) (rest : List Token) : Prop :=
  ∀ t ∈ rest.head?, (BindingPower.ofKind t.kind).rank ≤ power.rank ∧ t.kind ≠ .sino ∧
    t.kind ≠ .sinosi

theorem Stops.noElse {power : BindingPower} {rest : List Token} (h : Stops power rest) :
    NoElse rest :=
  fun t first => (h t first).2

theorem Stops.mono {power wider : BindingPower} {rest : List Token} (h : Stops power rest)
    (le : power.rank ≤ wider.rank) : Stops wider rest :=
  fun t first => ⟨Nat.le_trans (h t first).1 le, (h t first).2⟩

theorem noElse_of_kind {t : Token} {kind : Token.Kind} {rest : List Token} (found : t.kind = kind)
    (other : kind ≠ .sino ∧ kind ≠ .sinosi) : NoElse (t :: rest) := by
  intro u first
  cases first
  rw [found]
  exact other

/-- Closing brackets, commas and semicolons bind nothing. -/
theorem stops_of_kind {t : Token} {kind : Token.Kind} {rest : List Token} (found : t.kind = kind)
    (free : (BindingPower.ofKind kind).rank ≤ 0 ∧ kind ≠ .sino ∧ kind ≠ .sinosi)
    (power : BindingPower) : Stops power (t :: rest) := by
  intro u first
  cases first
  rw [found]
  exact ⟨Nat.le_trans free.1 (Nat.zero_le _), free.2⟩

/-- The productions one level further in read what the grammar derives, where there is room. -/
class Productions.Complete (limit n : Nat) (inner : Productions) : Prop where
  expression : ∀ {power : BindingPower} {s : State} {e : Expression} {rest : List Token},
    power ≠ .call → At Unextended power.inside s.tokens e rest → Stops power rest →
    s.Fits limit n → ∃ last, inner.expression power s = .ok e (s.onto (last :: rest))
  block : ∀ {s : State} {b : Block} {rest : List Token}, Body Unextended s.tokens b rest →
    s.Fits limit n → ∃ last, inner.block s = .ok b (s.onto (last :: rest))
  /-- The level for the current token was entered before the conditional is. -/
  conditional : ∀ (token : Token) {s : State} {c : Expression} {b : Block} {other : Option Block}
    {rest : List Token}, Branches Unextended s.ahead c b other rest → NoElse rest →
    s.Roomy limit (n - 1) →
    ∃ last, inner.conditional token s = .ok (.conditional token c b other) (s.onto (last :: rest))

section Productions

variable {inner : Productions} [inner.Onward] [complete : inner.Complete limit n] {s : State}
  {rest : List Token}

omit [inner.Onward] in
theorem reads_nextExpression {power : BindingPower} {ts : List Token} {e : Expression}
    (ahead : s.ahead = ts) (below : power ≠ .call) (h : At Unextended power.inside ts e rest)
    (stops : Stops power rest) : Reads limit n (nextExpression inner power) s e rest := by
  intro room
  rw [← ahead] at h
  exact complete.expression below (s := s.advance) h stops room.advance

/-- A block that starts at the next token, and what follows it. -/
theorem Reads.block {f : Block → Parser β} {ts mid : List Token} {b : Block} {c : β}
    (ahead : s.ahead = ts) (h : Body Unextended ts b mid)
    (after : ∀ last, Reads limit n (f b) (s.onto (last :: mid)) c rest) :
    Reads limit n (Parser.expect .leftCurly >>= fun _ => inner.block >>= f) s c rest := by
  intro room
  obtain ⟨left, us, same, kind⟩ : ∃ left us, ts = left :: us ∧ left.kind = .leftCurly := by
    cases h with
    | mk curly _ _ => exact ⟨_, _, rfl, curly⟩
  have next : s.peek.kind = .leftCurly := by rw [State.peek_of_ahead (ahead.trans same), kind]
  rw [← ahead] at h
  obtain ⟨last, run⟩ := complete.block (s := s.advance) h room.advance
  have suffix : last :: mid <:+ s.advance.tokens := (Keeps.ok (R := State.Ahead) run).tokens
  rw [bind_of_ok (expect_of_kind next), bind_of_ok run]
  exact after last (room.onto (suffix.trans s.ahead_advance.tokens))

theorem reads_functionRest {ts us : List Token} {names : List Identifier} {body : Block}
    (ahead : s.ahead = ts) (parameters : Parameters ts names us)
    (block : Body Unextended us body rest) :
    Reads limit n (functionRest (n + 1) inner) s (names, body) rest := by
  obtain ⟨left, vs, rfl, kind⟩ := parameters.starts
  refine .expect ahead kind (.bind (reads_parameters rfl parameters) fun last => ?_)
  exact .block rfl block fun last => .pure last

theorem reads_grouped {ts : List Token} {e : Expression} {right : Token} (ahead : s.ahead = ts)
    (h : Expr Unextended ts e (right :: rest)) (closing : right.kind = .rightParen) :
    Reads limit n (grouped inner) s e rest := by
  have stops : Stops .lowest (right :: rest) := stops_of_kind closing (by decide) _
  refine .bind (reads_nextExpression ahead nofun h stops) ?_
  intro _
  exact .expect rfl closing (.pure _)

theorem reads_unary {ts : List Token} {e : Expression} {token : Token} {op : UnaryOp}
    (ahead : s.ahead = ts) (h : Chain Unextended .unary ts e rest) (stops : Stops .unary rest) :
    Reads limit n (unary inner token op) s (.unary token op e) rest := by
  refine .bind (reads_nextExpression ahead nofun h stops) ?_
  intro last
  exact .pure last

theorem reads_alternative {ts : List Token} {other : Option Block} (ahead : s.ahead = ts)
    (left : s.tokens = s.current :: s.ahead) (h : Alternative Unextended ts other rest)
    (after : NoElse rest) : Reads limit n (alternative limit inner) s other rest := by
  intro room
  cases h with
  | none =>
    -- at the end of the tokens the next one is the end of input, which is no branch either
    have next := room.sane.peek_kind (P := fun kind => kind ≠ .sino ∧ kind ≠ .sinosi)
      ⟨nofun, nofun⟩ (ahead ▸ after)
    refine ⟨s.current, ?_⟩
    rw [alternative_of_ne next.1 next.2, ← ahead, ← left]
    rfl
  | sino kind block =>
    refine Reads.peek (f := fun next => _) ?_ room
    rw [State.peek_of_ahead ahead, kind]
    exact .advance ahead (.block rfl block fun last => .pure last)
  | sinosi kind branches =>
    -- the nested conditional stands on `sinosi`, one level deeper
    have fits := room.advance
    have here : s.advance.tokens = _ := ahead
    obtain ⟨level, inside⟩ := fits.deeper here
    have start : s.advance.ahead = _ := congrArg List.tail ahead
    rw [List.tail_cons] at start
    rw [← start] at branches
    obtain ⟨last, run⟩ := complete.conditional s.advance.current
      (s := { s.advance with depth := s.advance.depth + 1 }) branches after inside
    refine ⟨last, ?_⟩
    rw [alternative, peek_bind, State.peek_of_ahead ahead, kind]
    show (nested limit (inner.conditional s.advance.current) >>= fun chained => _) s.advance = _
    rw [bind_of_ok (nested_of_ok level run), State.current_of_tokens here]
    rfl

theorem reads_conditional {token : Token} {ts : List Token} {c : Expression} {b : Block}
    {other : Option Block} (ahead : s.ahead = ts) (h : Branches Unextended ts c b other rest)
    (after : NoElse rest) :
    Reads limit n (conditional limit inner token) s (.conditional token c b other) rest := by
  cases h with
  | mk left condition right block otherwise =>
    refine .expect ahead left (.bind (reads_nextExpression rfl nofun condition ?_) fun _ => ?_)
    · exact stops_of_kind right (by decide) _
    refine .expect rfl right (.block rfl block fun _ => ?_)
    refine .bind (reads_alternative rfl rfl otherwise after) ?_
    intro last
    exact .pure last

/-- A property ends before these tokens. -/
def EndsProperty (rest : List Token) : Prop :=
  Stops .lowest rest ∧ ∀ t ∈ rest.head?, t.kind ≠ .colon

theorem endsProperty_of_kind {t : Token} {kind : Token.Kind} {rest : List Token}
    (found : t.kind = kind) (free : (BindingPower.ofKind kind).rank ≤ 0 ∧ kind ≠ .sino ∧
      kind ≠ .sinosi) (other : kind ≠ .colon) : EndsProperty (t :: rest) := by
  refine ⟨stops_of_kind found free _, fun u first => ?_⟩
  cases first
  rw [found]
  exact other

theorem reads_property {p : Property} (h : Entry Unextended s.ahead p rest)
    (after : EndsProperty rest) : Reads limit n (property inner) s p rest := by
  generalize ahead : s.ahead = ts at h
  cases h with
  | key kind =>
    apply Reads.bind (.expectIdentifier ahead (.mk kind))
    intro last
    refine .peek fun room => ?_
    -- a key alone: the next token is no colon, and at the end it is the end of input
    have other := room.sane.peek_kind (P := (· ≠ .colon)) nofun after.2
    rw [if_neg other]
    exact ⟨last, rfl⟩
  | value kind colon value =>
    apply Reads.bind (.expectIdentifier ahead (.mk kind))
    intro last
    refine .peek ?_
    rw [State.peek_of_ahead rfl, if_pos colon]
    refine .advance rfl (.bind (reads_nextExpression rfl nofun value after.1) ?_)
    intro last
    exact .pure last

theorem commaProperty_goes {comma : Token} {us : List Token} {p : Property}
    (kind : comma.kind = .comma) (ahead : s.ahead = comma :: us)
    (one : Entry Unextended us p rest) (after : EndsProperty rest) (room : s.Roomy limit n) :
    ∃ last, commaProperty inner s = .ok (some [p]) (s.onto (last :: rest)) ∧
      last :: rest <:+ s.ahead := by
  have start : s.advance.ahead = us := congrArg List.tail ahead
  have other : s.advance.peek.kind ≠ .rightCurly := by
    obtain ⟨t, vs, rfl, name⟩ := one.starts
    rw [State.peek_of_ahead start, name]
    nofun
  have read : Reads limit n (property inner) s.advance p rest := reads_property (start ▸ one) after
  obtain ⟨last, run⟩ := read room.advance.roomy
  have suffix : last :: rest <:+ s.ahead := (Keeps.ok (R := State.Ahead) run).tokens
  refine ⟨last, ?_, suffix⟩
  rw [commaProperty, peek_bind, State.peek_of_ahead ahead, if_pos kind, advance_bind, peek_bind,
    if_neg other, bind_of_ok run]
  rfl

omit [inner.Onward] complete in
theorem commaProperty_stops {right : Token} (closing : right.kind = .rightCurly)
    (ahead : s.ahead = right :: rest) :
    Reads limit n (commaProperty inner) s none (right :: rest) := by
  intro room
  have other : right.kind ≠ .comma := by rw [closing]; nofun
  refine ⟨s.current, ?_⟩
  rw [commaProperty, peek_bind, State.peek_of_ahead ahead, if_neg other,
    ← State.tokens_of_ahead ahead]
  rfl

omit [inner.Onward] complete in
theorem commaProperty_stops_after {comma right : Token} (kind : comma.kind = .comma)
    (closing : right.kind = .rightCurly) (ahead : s.ahead = comma :: right :: rest) :
    Reads limit n (commaProperty inner) s none (right :: rest) := by
  refine .peek ?_
  rw [State.peek_of_ahead ahead, if_pos kind]
  refine .advance ahead (.peek ?_)
  rw [State.peek_of_ahead rfl, if_pos closing]
  exact .pure comma

theorem reads_properties {mid : List Token} {ps : List Property}
    (all : Separated (Entry Unextended) s.ahead ps mid) (after : EndsProperty mid)
    (stops : ∀ {s : State}, s.ahead = mid → Reads limit n (commaProperty inner) s none rest) :
    Reads limit n (properties (n + 1) inner) s ps rest := by
  have other : s.peek.kind ≠ .rightCurly := by
    obtain ⟨_, _, first⟩ := all.first
    obtain ⟨t, us, ahead, kind⟩ := first.starts
    rw [State.peek_of_ahead ahead, kind]
    nofun
  refine .peek ?_
  rw [if_neg other]
  have property {s : State} {p : Property} {rest : List Token}
      (one : Entry Unextended s.ahead p rest) (after : EndsProperty rest) :
      Reads limit n (property inner) s p rest := reads_property one after
  obtain ⟨first, more, us, rfl, one, others⟩ := reads_separated (commaProperty inner)
    property commaProperty_goes (fun kind => endsProperty_of_kind kind (by decide) nofun) stops
    after all
  apply one.bind
  intro last
  apply (others last).bind
  intro last
  exact .pure last

theorem reads_object {token : Token} {ps : List Property}
    (h : Entries Unextended s.ahead ps rest) :
    Reads limit n (object (n + 1) inner token) s (.object token ps) rest := by
  generalize ahead : s.ahead = ts at h
  cases h with
  | none closing =>
    apply Reads.bind (a := []) (.peek ?_)
    intro _
    exact .expect rfl closing (.pure _)
    rw [State.peek_of_ahead ahead, if_pos closing]
    exact fun _ => ⟨s.current, by rw [← State.tokens_of_ahead ahead]; rfl⟩
  | some all closing =>
    refine .bind (reads_properties (ahead ▸ all) ?_ ?_) fun _ => .expect rfl closing (.pure _)
    · exact endsProperty_of_kind closing (by decide) nofun
    · exact commaProperty_stops closing
  | comma all kind closing =>
    refine .bind (reads_properties (ahead ▸ all) ?_ ?_) fun _ => .expect rfl closing (.pure _)
    · exact endsProperty_of_kind kind (by decide) nofun
    · exact commaProperty_stops_after kind closing

omit [inner.Onward] complete in
/-- A literal is read as an operand, as its text is one of its kind. -/
theorem operand_of_literal {bound : Nat} {e : Expression} (h : Literal s.current e)
    (lexed : s.current.Lexed) : operand limit bound inner s = .ok e s := by
  rw [operand, current_bind]
  cases h with
  | integer kind small =>
    obtain ⟨some_digit, digits⟩ := lexed.integer kind
    simp only [kind, Number.readInteger?_of_digits some_digit digits, if_pos small]
    rfl
  | float kind spelled digits places =>
    rename_i whole fraction
    -- a float is scanned from its first digit, so there is one before the point
    have some_digit : whole ≠ [] := by
      rintro rfl
      obtain ⟨front, back, other, ⟨nonempty, front_digits⟩, -⟩ := lexed.float kind
      obtain ⟨c, cs, rfl⟩ := List.exists_cons_of_ne_nil nonempty
      rw [spelled] at other
      cases other
      rw [List.all_cons] at front_digits
      cases front_digits
    simp only [kind, Number.read?_of_decimal spelled some_digit digits places]
    rfl
  | verdadero kind => simp only [kind]; rfl
  | falso kind => simp only [kind]; rfl
  | string kind => simp only [kind]; rfl

/-- A primary is read as an operand. -/
theorem reads_primary {ts : List Token} {e : Expression} (tokens : s.tokens = ts)
    (h : Primary Unextended ts e rest) (after : NoElse rest) :
    Reads limit n (operand limit (n + 1) inner) s e rest := by
  intro room
  cases h with
  | name kind =>
    have here := State.current_of_tokens tokens
    refine ⟨s.current, ?_⟩
    rw [operand, current_bind, here, kind, ← tokens]
    rfl
  | literal literal =>
    have here := State.current_of_tokens tokens
    have lexed := room.sane.lexed _ (tokens ▸ List.mem_cons_self)
    refine ⟨s.current, ?_⟩
    rw [← here] at literal lexed
    rw [operand_of_literal literal lexed, here, ← tokens]
    rfl
  | grouped kind inside closing =>
    have here := State.current_of_tokens tokens
    have ahead := congrArg List.tail tokens
    rw [operand, current_bind, here, kind]
    exact reads_grouped ahead inside closing room
  | function kind parameters block =>
    have here := State.current_of_tokens tokens
    have ahead := congrArg List.tail tokens
    rw [operand, current_bind, here, kind]
    exact Reads.bind (reads_functionRest ahead parameters block) (fun last => .pure last) room
  | conditional kind branches =>
    have here := State.current_of_tokens tokens
    have ahead := congrArg List.tail tokens
    rw [operand, current_bind, here, kind]
    exact reads_conditional ahead branches after room
  | object kind entries =>
    have here := State.current_of_tokens tokens
    have ahead : s.ahead = _ := congrArg List.tail tokens
    rw [List.tail_cons] at ahead
    rw [operand, current_bind, here, kind]
    rw [← ahead] at entries
    exact reads_object entries room

theorem reads_arguments {ts : List Token} {values : List Expression} (ahead : s.ahead = ts)
    (h : Arguments Unextended ts values rest) :
    Reads limit n (arguments (n + 1) inner) s values rest := by
  refine .peek ?_
  cases h with
  | none closing =>
    rw [State.peek_of_ahead ahead, if_pos closing]
    exact .advance ahead (.pure _)
  | some inside closing =>
    have other : s.peek.kind ≠ .rightParen := by
      obtain ⟨_, _, first⟩ := inside.first
      obtain ⟨starts, _⟩ := first.starts
      rw [State.peek_of_ahead ahead]
      intro same
      rw [same] at starts
      cases starts
    rw [if_neg other]
    have value {s : State} {e : Expression} {rest : List Token}
        (one : Expr Unextended s.ahead e rest) (after : Stops .lowest rest) :
        Reads limit n (nextExpression inner .lowest) s e rest :=
      reads_nextExpression rfl nofun one after
    rw [← ahead] at inside
    obtain ⟨first, more, us, rfl, one, others⟩ := reads_separated _ value (commaItem_goes value)
      (fun kind => stops_of_kind kind (by decide) _) (commaItem_stops (by rw [closing]; nofun))
      (stops_of_kind closing (by decide) _) inside
    apply one.bind
    intro last
    apply (others last).bind
    intro _
    exact .expect rfl closing (.pure _)

/-! ## The loop over operators -/

/-- The operand at `s` and then some rounds of the loop read `e` and stop with `rest` ahead.  Each
round used up a level of nesting and at least a token. -/
def Folds (limit n : Nat) (inner : Productions) (power : BindingPower) (s : State) (e : Expression)
    (rest : List Token) : Prop :=
  ∃ first mid rounds last, operand limit (n + 1) inner s = .ok first (s.onto mid) ∧
    last :: rest <:+ s.tokens ∧ rounds + rest.length ≤ s.ahead.length ∧
    ∀ k, operators limit (n + 1) inner power (k + rounds) first (s.onto mid) =
      operators limit (n + 1) inner power k e
        { s with tokens := last :: rest, depth := s.depth + rounds }

omit complete in
theorem Folds.of_operand {power : BindingPower} {e : Expression}
    (read : Reads limit n (operand limit (n + 1) inner) s e rest) (room : s.Roomy limit n) :
    Folds limit n inner power s e rest := by
  obtain ⟨last, run⟩ := read room
  have past := Keeps.ok (R := State.Ahead) run
  refine ⟨e, _, 0, last, run, past.tokens, ?_, fun k => rfl⟩
  rw [Nat.zero_add]
  exact past.length_ahead_le

omit complete in
/-- One more round of the loop. -/
theorem Folds.step {power : BindingPower} {t : Token} {us : List Token} {e wider : Expression}
    (folds : Folds limit n inner power s e (t :: us)) (room : s.Roomy limit n)
    (binds : power < .ofKind t.kind)
    (extends_ : ∀ {v : State}, v.tokens = t :: us →
      Reads limit n (extend (n + 1) inner e) v wider rest) :
    Folds limit n inner power s wider rest := by
  obtain ⟨first, mid, rounds, last, run, suffix, used, loop⟩ := folds
  have onward : t :: us <:+ s.tokens := (List.suffix_cons last _).trans suffix
  have short := room.short
  have shallow := room.shallow
  rw [List.length_cons] at used
  -- the state in which the round extends what was read so far
  have inside :
      ({ s with tokens := t :: us, depth := s.depth + rounds + 1 } : State).Roomy limit n := by
    refine ⟨⟨room.sane.finish, fun v left => room.sane.lexed v (onward.subset left)⟩, ?_, ?_⟩
    · show us.length < n
      omega
    · show s.depth + rounds + 1 + us.length ≤ limit
      omega
  obtain ⟨last', extended⟩ := extends_ rfl inside
  have rest_suffix : last' :: rest <:+ t :: us := (Keeps.ok (R := State.Ahead) extended).tokens
  have fewer := rest_suffix.length_le
  rw [List.length_cons, List.length_cons] at fewer
  refine ⟨first, mid, rounds + 1, last', run, rest_suffix.trans onward, by omega, fun k => ?_⟩
  have level : s.depth + rounds < limit := by omega
  -- the rounds so far come first, then the one that folds `wider`
  have count : k + (rounds + 1) = k + 1 + rounds := by omega
  rw [count, loop (k + 1), operators, peek_bind, State.peek_of_ahead rfl,
    if_pos binds, bind_of_ok (enter_of_lt level), advance_bind]
  exact bind_of_ok extended

theorem reads_binary {level : Level} {t : Token} {us : List Token} {op : BinaryOp}
    {a b : Expression} (tokens : s.tokens = t :: us) (operator : level.operator? t.kind = some op)
    (right : Chain Unextended level.tighter us b rest) (stops : Stops level.power rest) :
    Reads limit n (extend (n + 1) inner a) s (.binary t op a b) rest := by
  refine .current ?_
  rw [State.current_of_tokens tokens, Level.ofKind?_of_operator? operator,
    Level.ofKind_of_operator? operator]
  have below : level.power ≠ .call := by cases level <;> nofun
  rw [← at_inside_power] at right
  have ahead : s.ahead = us := congrArg List.tail tokens
  apply Reads.bind (reads_nextExpression ahead below right stops)
  intro last
  exact .pure last

theorem reads_assign {t : Token} {us : List Token} {name : Identifier} {value : Expression}
    (tokens : s.tokens = t :: us) (kind : t.kind = .assign)
    (read : Expr Unextended us value rest) (stops : Stops .lowest rest) :
    Reads limit n (extend (n + 1) inner (.identifier name)) s (.assign t name value) rest := by
  refine .current ?_
  rw [State.current_of_tokens tokens, kind]
  have ahead : s.ahead = us := congrArg List.tail tokens
  refine .bind (reads_nextExpression ahead nofun read stops) ?_
  intro last
  exact .pure last

theorem reads_call {t : Token} {us : List Token} {callee : Expression} {values : List Expression}
    (tokens : s.tokens = t :: us) (kind : t.kind = .leftParen)
    (arguments : Arguments Unextended us values rest) :
    Reads limit n (extend (n + 1) inner callee) s (.call t callee values) rest := by
  refine .current ?_
  rw [State.current_of_tokens tokens, kind]
  have ahead : s.ahead = us := congrArg List.tail tokens
  apply Reads.bind (reads_arguments ahead arguments)
  intro last
  exact .pure last

omit [inner.Onward] complete in
theorem reads_member {dot name : Token} {object : Expression}
    (tokens : s.tokens = dot :: name :: rest) (kind : dot.kind = .dot)
    (identifier : name.kind = .identifier) :
    Reads limit n (extend (n + 1) inner object) s
      (.member dot object (.identifier (.ofToken name)) false) rest := by
  refine .current ?_
  rw [State.current_of_tokens tokens, kind]
  have ahead : s.ahead = name :: rest := congrArg List.tail tokens
  apply Reads.bind (.expectIdentifier ahead (.mk identifier))
  intro last
  exact .pure last

theorem reads_index {left right : Token} {us : List Token} {object key : Expression}
    (tokens : s.tokens = left :: us) (kind : left.kind = .leftBracket)
    (read : Expr Unextended us key (right :: rest)) (closing : right.kind = .rightBracket) :
    Reads limit n (extend (n + 1) inner object) s (.member left object key true) rest := by
  refine .current ?_
  rw [State.current_of_tokens tokens, kind]
  have ahead : s.ahead = us := congrArg List.tail tokens
  have stops : Stops .lowest (right :: rest) := stops_of_kind closing (by decide) _
  refine .bind (reads_nextExpression ahead nofun read stops) ?_
  intro _
  exact .expect rfl closing (.pure _)

/-- The left spine of an application is read round by round. -/
theorem folds_applied {power : BindingPower} (below : power.rank < BindingPower.call.rank)
    (room : s.Roomy limit n) {ts rest : List Token} {e : Expression} (tokens : s.tokens = ts)
    (after : NoElse rest) : Applied Unextended ts e rest → Folds limit n inner power s e rest
  | .primary first => .of_operand (reads_primary tokens first after) room
  | .call callee kind arguments => by
    have read := folds_applied below room tokens (noElse_of_kind kind ⟨nofun, nofun⟩) callee
    have binds : power < .ofKind .leftParen := below
    exact read.step room (kind ▸ binds) fun here => reads_call here kind arguments
  | .member object kind identifier => by
    have read := folds_applied below room tokens (noElse_of_kind kind ⟨nofun, nofun⟩) object
    have binds : power < .ofKind .dot := below
    exact read.step room (kind ▸ binds) fun here => reads_member here kind identifier
  | .index object kind key closing => by
    have read := folds_applied below room tokens (noElse_of_kind kind ⟨nofun, nofun⟩) object
    have binds : power < .ofKind .leftBracket := below
    exact read.step room (kind ▸ binds) fun here => reads_index here kind key closing

omit [inner.Onward] complete in
/-- An operator does not extend its own operands from inside. -/
theorem stops_of_operator? {level : Level} {t : Token} {us : List Token} {op : BinaryOp}
    (operator : level.operator? t.kind = some op) : Stops level.power (t :: us) := by
  intro u first
  cases first
  refine ⟨by rw [Level.ofKind_of_operator? operator], ?_, ?_⟩ <;> intro kind <;>
    rw [kind] at operator <;> cases level <;> cases operator

/-- An operator before an operand is read as an operand. -/
theorem reads_operator {t : Token} {ts : List Token} {op : UnaryOp} {e : Expression}
    (tokens : s.tokens = t :: ts) (operator : unaryOperator? t.kind = some op)
    (h : Chain Unextended .unary ts e rest) (after : Stops .unary rest) :
    Reads limit n (operand limit (n + 1) inner) s (.unary t op e) rest := by
  have ahead : s.ahead = ts := congrArg List.tail tokens
  refine .current ?_
  rw [State.current_of_tokens tokens]
  cases kind : t.kind <;> rw [kind] at operator
  case bang =>
    cases operator
    exact reads_unary ahead h after
  case minus =>
    cases operator
    exact reads_unary ahead h after
  all_goals cases operator

/-- The left spine of operators of a level is read round by round. -/
theorem folds_chain {power : BindingPower} (below : power.rank < BindingPower.call.rank)
    (room : s.Roomy limit n) {level : Level} {ts rest : List Token} {e : Expression}
    (tokens : s.tokens = ts) (inside : power.inside ≤ level.power.rank)
    (after : Stops level.power rest) :
    Chain Unextended level ts e rest → Folds limit n inner power s e rest
  | .binary left operator right => by
    have read := folds_chain below room tokens inside (stops_of_operator? operator) left
    -- a level inside `power` is tighter than `power` itself
    have binds : power < level.power := by
      show power.rank < level.power.rank
      cases level
      case unary => cases operator
      all_goals
        rw [BindingPower.inside] at inside
        simp only [Level.power, BindingPower.rank] at inside ⊢
        omega
    rw [← Level.ofKind_of_operator? operator] at binds
    exact read.step room binds fun here => reads_binary here operator right after
  | .tighter other chain => by
    have le := level.rank_le_tighter
    exact folds_chain below room tokens (Nat.le_trans inside le) (after.mono le) chain
  | .unary operator chain => .of_operand (reads_operator tokens operator chain after) room
  | .applied operand => folds_applied below room tokens after.noElse operand

/-- The left spine of an expression is read round by round. -/
theorem folds_at {power : BindingPower} {e : Expression} (below : power ≠ .call)
    (room : s.Roomy limit n) (h : At Unextended power.inside s.tokens e rest)
    (after : Stops power rest) : Folds limit n inner power s e rest := by
  cases power with
  | lowest =>
    have read : Expr Unextended s.tokens e rest := h
    generalize tokens : s.tokens = ts at read
    cases read with
    | operators chain =>
      exact folds_chain (by decide) room tokens (by decide) (after.mono (by decide)) chain
    | assign target kind value =>
      -- the target is read as an operand, and the equals sign as the operator after it
      have first : Reads limit n (operand limit (n + 1) inner) s _ _ :=
        reads_primary tokens target.primary (noElse_of_kind kind ⟨nofun, nofun⟩)
      have binds : BindingPower.lowest < .ofKind .assign := by decide
      exact (Folds.of_operand first room).step room (kind ▸ binds) fun here =>
        reads_assign here kind value after
  | assignment => exact folds_chain (by decide) room rfl (by decide) (after.mono (by decide)) h
  | equality => exact folds_chain (by decide) room rfl (by decide) (after.mono (by decide)) h
  | comparison => exact folds_chain (by decide) room rfl (by decide) (after.mono (by decide)) h
  | sum => exact folds_chain (by decide) room rfl (by decide) (after.mono (by decide)) h
  | product => exact folds_chain (by decide) room rfl (by decide) (after.mono (by decide)) h
  | unary => exact folds_chain (by decide) room rfl (by decide) (after.mono (by decide)) h
  | call => exact absurd rfl below

omit [inner.Onward] complete in
/-- The loop stops after its rounds where the next token does not bind. -/
theorem Folds.finish {power : BindingPower} {e : Expression}
    (folds : Folds limit n inner power s e rest) (room : s.Roomy limit n)
    (after : Stops power rest) :
    ∃ last, (operand limit (n + 1) inner >>= fun left =>
      keepingDepth (operators limit (n + 1) inner power (n + 1) left)) s =
        .ok e (s.onto (last :: rest)) := by
  obtain ⟨first, mid, rounds, last, run, suffix, used, loop⟩ := folds
  have stop : ¬ power < .ofKind
      (State.peek { s with tokens := last :: rest, depth := s.depth + rounds }).kind := by
    have inside := (room.onto suffix).sane
    exact Nat.not_lt.2 (inside.peek_kind (P := fun kind => (BindingPower.ofKind kind).rank ≤ _)
      (Nat.zero_le _) fun t first => (after t first).1)
  have short := room.short
  -- each round used a token, so there were fewer rounds than the bound
  have count : n + 1 = n - rounds + 1 + rounds := by omega
  have looped := (loop (n - rounds + 1)).trans (operators_of_not_lt stop)
  rw [← count] at looped
  exact ⟨last, (bind_of_ok run).trans (keepingDepth_of_ok looped)⟩

theorem reads_expression {power : BindingPower} {e : Expression} (below : power ≠ .call)
    (h : At Unextended power.inside s.tokens e rest) (after : Stops power rest)
    (fits : s.Fits limit (n + 1)) :
    ∃ last, expression limit (n + 1) inner power s = .ok e (s.onto (last :: rest)) := by
  -- an expression has a first token, which pays for the level it is read at
  obtain ⟨t, ts, tokens⟩ : ∃ t ts, s.tokens = t :: ts := by
    have whole : Expr Unextended s.tokens e rest := h.mono (Nat.zero_le _)
    generalize s.tokens = us at whole
    obtain ⟨_, _⟩ := whole.starts
    exact ⟨_, _, rfl⟩
  obtain ⟨level, room⟩ := fits.deeper tokens
  have folds : Folds limit n inner power { s with depth := s.depth + 1 } e rest :=
    folds_at below room h after
  obtain ⟨last, run⟩ := folds.finish room after
  exact ⟨last, nested_of_ok level run⟩

/-! ## Statements -/

/-- The tokens after an optional semicolon. -/
def afterSemicolon : List Token → List Token
  | [] => []
  | t :: ts => if t.kind = .semicolon then ts else t :: ts

omit [inner.Onward] complete in
theorem reads_skipSemicolon (left : s.tokens = s.current :: s.ahead) :
    Reads limit n skipSemicolon s () (afterSemicolon s.ahead) := by
  intro room
  rw [skipSemicolon_apply]
  cases ahead : s.ahead with
  | nil =>
    have other : s.peek.kind ≠ .semicolon := by
      rw [State.peek_of_ahead_nil ahead, room.sane.finish]
      nofun
    rw [if_neg other]
    exact ⟨s.current, by rw [afterSemicolon, ← ahead, ← left]; rfl⟩
  | cons t ts =>
    rw [State.peek_of_ahead ahead, afterSemicolon]
    by_cases semicolon : t.kind = .semicolon
    · rw [if_pos semicolon, if_pos semicolon]
      exact ⟨t, by rw [← ahead]; rfl⟩
    · rw [if_neg semicolon, if_neg semicolon]
      exact ⟨s.current, by rw [← ahead, ← left]; rfl⟩

omit [inner.Onward] complete in
/-- Of the tokens that start an item or close a block, only two bind. -/
theorem free_of_begins {kind : Token.Kind} (begins : kind.startsItem ∨ kind = .rightCurly)
    (not_paren : kind ≠ .leftParen) (not_minus : kind ≠ .minus) :
    (BindingPower.ofKind kind).rank ≤ 0 ∧ kind ≠ .sino ∧ kind ≠ .sinosi := by
  revert begins not_paren not_minus
  cases kind <;> decide

omit [inner.Onward] complete in
/-- Where a statement ends, no expression goes on. -/
theorem stops_of_ended {us : List Token} (h : Ended Unextended us rest) (after : Begins rest) :
    Stops .lowest us := by
  cases h with
  | semicolon kind => exact stops_of_kind kind (by decide) _
  | nothing unextended =>
    intro t first
    obtain ⟨not_paren, not_minus⟩ := unextended t first
    exact free_of_begins (after t first) not_paren not_minus

omit [inner.Onward] complete in
theorem afterSemicolon_of_ended {follow : List Token → Prop} {us : List Token}
    (h : Ended follow us rest) :
    afterSemicolon us = rest ∨ ∃ t, t.kind = .semicolon ∧ rest = t :: afterSemicolon us := by
  cases h with
  | semicolon kind => exact .inl (if_pos kind)
  | nothing _ =>
    cases rest with
    | nil => exact .inl rfl
    | cons t ts =>
      by_cases semicolon : t.kind = .semicolon
      · exact .inr ⟨t, semicolon, by rw [afterSemicolon, if_pos semicolon]⟩
      · exact .inl (if_neg semicolon)

omit [inner.Onward] complete in
/-- Where a statement ends, no equals sign follows. -/
theorem ne_assign_of_ended {follow : List Token → Prop} {us : List Token}
    (h : Ended follow us rest) (after : Begins rest) : ∀ t ∈ us.head?, t.kind ≠ .assign := by
  intro t first same
  cases h with
  | semicolon kind =>
    cases first
    rw [kind] at same
    cases same
  | nothing _ =>
    have begins := after t first
    rw [same] at begins
    rcases begins with begins | begins <;> cases begins

variable (inner)

theorem reads_declaration {t name equals : Token} {ts us : List Token} {value : Expression}
    (tokens : s.tokens = t :: name :: equals :: ts) (identifier : name.kind = .identifier)
    (assign : equals.kind = .assign) (h : Expr Unextended ts value us) (stops : Stops .lowest us) :
    Reads limit n (declaration inner) s
      (.declaration t (.ofToken name) (some value) (t.kind = .constant)) (afterSemicolon us) := by
  have ahead : s.ahead = name :: equals :: ts := congrArg List.tail tokens
  refine .current ?_
  rw [State.current_of_tokens tokens]
  apply Reads.bind (.expectIdentifier ahead (.mk identifier))
  intro last
  refine .peek ?_
  rw [State.peek_of_ahead rfl, if_pos assign]
  refine .advance rfl (.bind (reads_nextExpression rfl nofun h stops) fun last => ?_)
  apply Reads.bind (reads_skipSemicolon rfl)
  intro last
  exact .pure last

omit [inner.Onward] complete in
theorem reads_uninitialized {t name : Token} {us : List Token}
    (tokens : s.tokens = t :: name :: us) (var : t.kind = .var)
    (identifier : name.kind = .identifier) (other : ∀ u ∈ us.head?, u.kind ≠ .assign) :
    Reads limit n (declaration inner) s (.declaration t (.ofToken name) none false)
      (afterSemicolon us) := by
  have ahead : s.ahead = name :: us := congrArg List.tail tokens
  refine .current ?_
  rw [State.current_of_tokens tokens]
  apply Reads.bind (.expectIdentifier ahead (.mk identifier))
  intro last
  refine .peek fun room => ?_
  have not_assign := room.sane.peek_kind (P := (· ≠ .assign)) nofun other
  rw [if_neg not_assign]
  refine Reads.bind (reads_skipSemicolon rfl) (fun last => ?_) room
  simp only [var]
  exact .pure last

theorem reads_result {t : Token} {ts us : List Token} {value : Expression}
    (tokens : s.tokens = t :: ts) (h : Expr Unextended ts value us) (stops : Stops .lowest us) :
    Reads limit n (result inner) s (.result t (some value)) (afterSemicolon us) := by
  have ahead : s.ahead = ts := congrArg List.tail tokens
  -- none of the ends of a bare `regresa` starts an expression
  have other {kind : Token.Kind} (none : kind.startsExpression = false) : s.peek.kind ≠ kind := by
    obtain ⟨starts, _⟩ := h.starts
    rw [State.peek_of_ahead ahead]
    rintro rfl
    rw [starts] at none
    cases none
  have found : Reads limit n (resultValue inner) s (some value) us := by
    intro room
    rw [resultValue_of_ne (other rfl) (other rfl) (other rfl), map_eq_bind]
    exact Reads.bind (reads_nextExpression ahead nofun h stops) (fun last => .pure last) room
  refine .current ?_
  rw [State.current_of_tokens tokens]
  apply Reads.bind found
  intro last
  apply Reads.bind (reads_skipSemicolon rfl)
  intro last
  exact .pure last

omit complete in
theorem reads_bare {t : Token} {us : List Token} (tokens : s.tokens = t :: us)
    (ended : AtEnd us) :
    Reads limit n (result inner) s (.result t none) (afterSemicolon us) := by
  have ahead : s.ahead = us := congrArg List.tail tokens
  have found : Reads limit n (resultValue inner) s none us := by
    intro room
    have next := room.sane.peek_kind
      (P := fun kind => kind = .semicolon ∨ kind = .rightCurly ∨ kind = .endOfInput)
      (.inr (.inr rfl)) fun u first => (ended u (ahead ▸ first)).imp_right .inl
    exact ⟨t, by rw [resultValue_of_end next, ← tokens]; rfl⟩
  refine .current ?_
  rw [State.current_of_tokens tokens]
  apply Reads.bind found
  intro last
  apply Reads.bind (reads_skipSemicolon rfl)
  intro last
  exact .pure last

theorem reads_function {t name : Token} {ts us vs : List Token} {names : List Identifier}
    {body : Block} (tokens : s.tokens = t :: name :: ts) (identifier : name.kind = .identifier)
    (parameters : Parameters ts names us) (block : Body Unextended us body vs) :
    Reads limit n (function (n + 1) inner) s (.function t (.ofToken name) names body)
      (afterSemicolon vs) := by
  have ahead : s.ahead = name :: ts := congrArg List.tail tokens
  refine .current ?_
  rw [State.current_of_tokens tokens]
  apply Reads.bind (.expectIdentifier ahead (.mk identifier))
  intro last
  refine .bind (reads_functionRest rfl parameters block) ?_
  intro last
  apply Reads.bind (reads_skipSemicolon rfl)
  intro last
  exact .pure last

omit complete in
theorem Reads.map_some {α : Type} {p : Parser α} [Onward p] {a : α}
    (h : Reads limit n p s a rest) : Reads limit n (some <$> p) s (some a) rest := by
  rw [map_eq_bind]
  apply h.bind
  intro last
  exact .pure last

theorem reads_valued {t : Token} {ts us : List Token} {value : Expression}
    (tokens : s.tokens = t :: ts) (h : Expr Unextended (t :: ts) value us)
    (stops : Stops .lowest us) (fits : s.Fits limit n) :
    ∃ last, statement (n + 1) inner s =
      .ok (some (.expression t value)) (s.onto (last :: afterSemicolon us)) := by
  have here := State.current_of_tokens tokens
  have other {kind : Token.Kind} (none : kind.startsExpression = false) :
      s.current.kind ≠ kind := by
    obtain ⟨starts, _⟩ := h.starts
    rw [here]
    rintro rfl
    rw [starts] at none
    cases none
  -- a function that is an expression has its parameters right after `func`
  have unnamed : ¬ (s.current.kind = .func ∧ s.peek.kind = .identifier) := by
    rintro ⟨func, named⟩
    obtain ⟨_, parameters⟩ := h.starts
    obtain ⟨left, vs, rfl, paren⟩ := parameters (here ▸ func)
    have ahead : s.ahead = left :: vs := congrArg List.tail tokens
    rw [State.peek_of_ahead ahead, paren] at named
    cases named
  rw [← tokens] at h
  have weak : BindingPower.lowest ≠ .call := nofun
  obtain ⟨last, run⟩ := complete.expression weak h stops fits
  have suffix : last :: us <:+ s.tokens := (Keeps.ok (R := State.Ahead) run).tokens
  rw [statement_of_ne (other rfl) (other rfl) (other rfl) (other rfl) unnamed, bind_of_ok run, here]
  have rest : Reads limit n (skipSemicolon >>= fun _ => pure (some (Statement.expression t value)))
      (s.onto (last :: us)) (some (.expression t value)) (afterSemicolon us) :=
    .bind (reads_skipSemicolon rfl) fun last => .pure last
  exact rest (fits.roomy.onto suffix)

/-- A statement is read up to its end.  A semicolon that the grammar takes for an item by itself is
read with the statement before it. -/
theorem reads_statement {ts : List Token} {one : Statement} (tokens : s.tokens = ts)
    (h : Clause Unextended ts one rest) (after : Begins rest) (fits : s.Fits limit n) :
    ∃ last us, statement (n + 1) inner s = .ok (some one) (s.onto (last :: us)) ∧
      (us = rest ∨ ∃ t, t.kind = .semicolon ∧ rest = t :: us) := by
  have room := fits.roomy
  cases h with
  | declaration kind identifier assign value ended =>
    rw [statement_of_declaration (by rw [State.current_of_tokens tokens]; exact kind)]
    have stops := stops_of_ended ended after
    obtain ⟨last, run⟩ :=
      (reads_declaration inner tokens identifier assign value stops).map_some room
    exact ⟨last, _, run, afterSemicolon_of_ended ended⟩
  | uninitialized kind identifier ended =>
    rw [statement_of_declaration (by rw [State.current_of_tokens tokens]; exact .inl kind)]
    have other := ne_assign_of_ended ended after
    obtain ⟨last, run⟩ := (reads_uninitialized inner tokens kind identifier other).map_some room
    exact ⟨last, _, run, afterSemicolon_of_ended ended⟩
  | result kind value ended =>
    rw [statement_of_regresa (by rw [State.current_of_tokens tokens]; exact kind)]
    have stops := stops_of_ended ended after
    obtain ⟨last, run⟩ := (reads_result inner tokens value stops).map_some room
    exact ⟨last, _, run, afterSemicolon_of_ended ended⟩
  | bare kind ending ended =>
    rw [statement_of_regresa (by rw [State.current_of_tokens tokens]; exact kind)]
    obtain ⟨last, run⟩ := (reads_bare inner tokens ending).map_some room
    exact ⟨last, _, run, afterSemicolon_of_ended ended⟩
  | function kind identifier parameters block ended =>
    have ahead : s.ahead = _ := congrArg List.tail tokens
    rw [statement_of_func (by rw [State.current_of_tokens tokens]; exact kind)
      (by rw [State.peek_of_ahead ahead]; exact identifier)]
    obtain ⟨last, run⟩ := (reads_function inner tokens identifier parameters block).map_some room
    exact ⟨last, _, run, afterSemicolon_of_ended ended⟩
  | expression value ended =>
    have stops := stops_of_ended ended after
    obtain ⟨last, run⟩ := reads_valued inner tokens value stops fits
    exact ⟨last, _, run, afterSemicolon_of_ended ended⟩

/-- A repetition of items reads a list of them up to tokens where a round yields nothing. -/
theorem reads_items {round : Parser (Option (List Statement))}
    (stops : ∀ {v : State}, v.Sane → v.tokens = rest → round v = .ok none v)
    (goes : ∀ {v : State} {t : Token} {ts : List Token}, v.tokens = t :: ts → t.kind.startsItem →
      round v = (some <$> item (n + 1) inner) v)
    (after : Begins rest) (plain : ∀ t ∈ rest.head?, t.kind ≠ .semicolon) (k : Nat) :
    ∀ {us : List Token} {statements : List Statement} {v : State},
      Items Unextended us statements rest → v.tokens = us → v.Fits limit n → us.length < k →
      collect round k v = .ok statements (v.onto rest) := by
  induction k with
  | zero =>
    intro us statements v _ _ _ enough
    exact absurd enough (Nat.not_lt_zero _)
  | succ k ih =>
    intro us statements v items tokens fits enough
    cases items with
    | done =>
      rw [collect, bind_of_ok (stops fits.sane tokens), ← tokens]
      rfl
    | semicolon kind items =>
      have here : v.current.kind = .semicolon := by rw [State.current_of_tokens tokens, kind]
      have ahead : v.advance.tokens = _ := congrArg List.tail tokens
      have read : item (n + 1) inner v = .ok [] v.advance :=
        item_of_ok (statement_of_semicolon here)
      have go := (goes tokens (by rw [kind]; rfl)).trans (map_some_of_ok read)
      have more := ih items ahead fits.roomy.advance (Nat.lt_of_succ_lt_succ enough)
      exact collect_go go more
    | statement clause items =>
      have begins := items.begins after
      obtain ⟨last, vs, run, skipped⟩ := reads_statement inner tokens clause begins fits
      obtain ⟨t, ts, rfl, starts, _⟩ := clause.starts
      have go := (goes tokens starts).trans (map_some_of_ok (item_of_ok run))
      have suffix : last :: vs <:+ v.tokens := (Keeps.ok (R := State.Ahead) run).tokens
      have used := suffix.length_le
      rw [tokens, List.length_cons] at used
      have inside := fits.onto ((List.suffix_cons last vs).trans suffix)
      -- a semicolon that the statement took is no item of its own any more
      have more := ih (items.of_skipped skipped plain) rfl inside (by omega)
      exact collect_go go more

theorem reads_block {b : Block} (h : Body Unextended s.tokens b rest)
    (fits : s.Fits limit (n + 1)) :
    ∃ last, block (n + 1) inner s = .ok b (s.onto (last :: rest)) := by
  generalize tokens : s.tokens = ts at h
  cases h with
  | mk kind items closing =>
    rename_i left right us statements
    have stops {v : State} (_ : v.Sane) (here : v.tokens = right :: rest) :
        blockItem (n + 1) inner left v = .ok none v :=
      blockItem_of_rightCurly left (by rw [State.current_of_tokens here, closing])
    have goes {v : State} {t : Token} {ts : List Token} (here : v.tokens = t :: ts)
        (starts : t.kind.startsItem) :
        blockItem (n + 1) inner left v = (some <$> item (n + 1) inner) v := by
      rw [← State.current_of_tokens here] at starts
      refine blockItem_of_ne left ?_ ?_ <;> intro same <;> rw [same] at starts <;> cases starts
    have after : Begins (right :: rest) := by
      intro t first
      cases first
      exact .inr closing
    have plain : ∀ t ∈ (right :: rest).head?, t.kind ≠ .semicolon := by
      intro t first
      cases first
      rw [closing]
      nofun
    have ahead : s.advance.tokens = us := congrArg List.tail tokens
    have short := fits.short
    have shallow := fits.shallow
    rw [tokens, List.length_cons] at short shallow
    have inside : s.advance.Fits limit n := by
      refine ⟨fits.sane.onward s.ahead_advance, ?_, ?_⟩
      · rw [ahead]
        omega
      · show s.depth + s.advance.tokens.length ≤ limit
        rw [ahead]
        omega
    have read := reads_items inner stops goes after plain (n + 1) items ahead inside (by omega)
    refine ⟨right, ?_⟩
    rw [block, current_bind, State.current_of_tokens tokens, advance_bind, bind_of_ok read]
    rfl

instance : (inner.next limit (n + 1)).Complete limit (n + 1) where
  expression below h after fits := reads_expression below h after fits
  block h fits := reads_block inner h fits
  conditional _ s _ _ _ _ h after room := by
    have roomy : s.Roomy limit n := room
    exact reads_conditional rfl h after roomy

end Productions

instance complete_upTo (limit n : Nat) : (Productions.upTo limit n).Complete limit n := by
  induction n with
  | zero =>
    refine ⟨fun _ _ _ fits => ?_, fun _ fits => ?_, fun _ _ _ _ _ _ _ _ room => ?_⟩
    · exact absurd fits.short (Nat.not_lt_zero _)
    · exact absurd fits.short (Nat.not_lt_zero _)
    · exact absurd room.short (Nat.not_lt_zero _)
  | succ n ih =>
    exact inferInstanceAs (((Productions.upTo limit n).next limit (n + 1)).Complete limit (n + 1))

/-- A program derived from all the tokens is read, where there is a level of nesting for each. -/
theorem program_of_derives {limit : Nat} {s : State} {p : Program} (sane : s.Sane)
    (h : Derives Unextended s.tokens p) (room : s.depth + s.tokens.length ≤ limit) :
    program limit s = .ok p (s.onto []) := by
  have stops {n : Nat} {v : State} (sane : v.Sane) (here : v.tokens = []) :
      programItem (n + 1) (Productions.upTo limit n) v = .ok none v := by
    refine programItem_of_endOfInput ?_
    rw [State.current, here]
    exact sane.finish
  have goes {n : Nat} {v : State} {t : Token} {ts : List Token} (here : v.tokens = t :: ts)
      (starts : t.kind.startsItem) : programItem (n + 1) (Productions.upTo limit n) v =
        (some <$> item (n + 1) (Productions.upTo limit n)) v := by
    rw [← State.current_of_tokens here] at starts
    refine programItem_of_ne ?_
    intro same
    rw [same] at starts
    cases starts
  -- the productions start with a bound above the number of tokens
  have fits : s.Fits limit (s.tokens.length + 1) := ⟨sane, Nat.lt_succ_self _, room⟩
  exact reads_items _ stops goes nofun nofun _ h rfl fits (by omega)

end Guion.Parser
