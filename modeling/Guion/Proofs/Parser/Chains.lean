import Guion.Proofs.Grammar.Brackets
import Guion.Proofs.Parser.Continuation
import Guion.Proofs.Parser.Locality
import Guion.Proofs.Program.Erasure

/-!
# Chains of conditionals

What stands between brackets is read up to the bracket that matches, whatever follows
(`Clean.grouped_spans`, `Clean.block_spans`).  So a branch of a conditional, that is its condition
and its block, is read by itself, and then the alternative (`Clean.conditional_branch`).

The branches after the first can be spelled with `sinosi`, or each as a conditional in a block after
`sino` (`Spelled`).  In both spellings a branch stands one level deeper than the one before it:
`sinosi` enters a level for its conditional, and so does the expression that is the only statement
of a block.  What the branches are read as at these levels is `ReadsAs`, which does not tell the
spellings apart, and it is what a spelling is read as (`Spelled.readsAs`, `Spelled.alternative`,
`Spelled.program_iff`).
-/

set_option autoImplicit false

namespace Guion

namespace Parser

open Bounded Grammar

variable {α : Type} {limit bound d : Nat}

/-! ## Tokens without places -/

/-- The word or sign without a place. -/
def sign (kind : Token.Kind) (text : String) : Token := ⟨kind, text, default⟩

/-- Before tokens without places and without errors so far. -/
def State.reading (tokens : List Token) (depth : Nat) : State :=
  ⟨tokens, sign .endOfInput "", depth, #[]⟩

-- the words and brackets of a conditional
abbrev si : Token := sign .si "si"
abbrev sino : Token := sign .sino "sino"
abbrev sinosi : Token := sign .sinosi "sinosi"
abbrev leftParen : Token := sign .leftParen "("
abbrev rightParen : Token := sign .rightParen ")"
abbrev leftCurly : Token := sign .leftCurly "\x7b"
abbrev rightCurly : Token := sign .rightCurly "\x7d"

/-! ## What is read between brackets -/

/-- Whatever follows the brackets, `p` goes from the left one to the right one and yields `a`. -/
def Spans (p : Parser α) (d : Nat) (left : Token) (inside : List Token) (right : Token) (a : α) :
    Prop :=
  ∀ rest, p (.reading (left :: (inside ++ right :: rest)) d) = .ok a (.reading (right :: rest) d)

section Spans

variable {p : Parser α} {left right : Token} {inside rest : List Token} {a : α} {t : State}

/-- A clean run that stops before the right tokens stops on the bracket before them. -/
theorem Clean.eq_reading [Onward p] [Steady p]
    (h : Clean p (.reading (left :: (inside ++ right :: rest)) d) a t) (ahead : t.ahead = rest)
    (before : t.current.kind ≠ .endOfInput) : t = .reading (right :: rest) d := by
  have onward := Keeps.ok (R := State.Ahead) h.run
  have depth : t.depth = d := Keeps.ok (R := State.SameDepth) h.run
  have tokens : t.tokens = right :: rest := by
    have some_left := State.tokens_eq_cons (h.sane.onward onward).finish before
    obtain ⟨used, same⟩ := onward.tokens
    rw [some_left, ahead] at same ⊢
    have split : used ++ t.current :: rest = (left :: inside) ++ right :: rest := same
    exact List.append_inj_right' split rfl
  have finish : t.finish = sign .endOfInput "" := onward.finish
  have errors : t.errors = #[] := h.errors
  rw [State.reading, ← tokens, ← depth, ← finish, ← errors]

/-- What does not look past the bracket it ends on does so whatever follows. -/
theorem Clean.spans [Sees 0 p]
    (h : Clean p (.reading (left :: (inside ++ right :: rest)) d) a (.reading (right :: rest) d)) :
    Spans p d left inside right a := by
  intro next
  have start : (State.reading (left :: (inside ++ right :: rest)) d).swap rest.length next =
      .reading (left :: (inside ++ right :: next)) d := by
    have same : left :: (inside ++ right :: rest) = (left :: (inside ++ [right])) ++ rest := by simp
    rw [State.swap_of_append same]
    simp [State.reading]
  have stop : (State.reading (right :: rest) d).swap rest.length next =
      .reading (right :: next) d := by
    have same : right :: rest = [right] ++ rest := rfl
    rw [State.swap_of_append same]
    rfl
  have swapped := Sees.swap (n := 0) next h (Nat.lt_succ_self rest.length)
  rwa [start, stop] at swapped

/-- An expression in parentheses is read up to the matching one. -/
theorem Clean.grouped_spans {c : List Token} {e : Expression} (matched : Matched c)
    (h : Clean (Parser.grouped (.whole limit))
      (.reading (leftParen :: (c ++ rightParen :: rest)) d) e t) :
    t = .reading (rightParen :: rest) d ∧
      Spans (Parser.grouped (.whole limit)) d leftParen c rightParen e := by
  have ended : t = .reading (rightParen :: rest) d := by
    obtain ⟨e, u, expression, last⟩ := h.bind
    obtain ⟨_, v, closing, last⟩ := last.bind
    obtain ⟨rfl, rfl⟩ := last.pure_eq
    obtain ⟨right, closes, ahead, tokens⟩ := closing.expect (by decide)
    have read : Expr Unextended (c ++ rightParen :: rest) e u.ahead := expression.nextExpression.1
    obtain ⟨used, same, spent⟩ := read.spent
    rw [ahead] at same
    have there := (eq_of_matched matched spent rfl (by rw [closes]; rfl) same).2
    refine h.eq_reading (List.cons.inj there).2.symm ?_
    rw [State.current_of_tokens tokens, closes]
    nofun
  subst ended
  exact ⟨rfl, h.spans⟩

/-- A block is read up to the matching brace. -/
theorem Clean.block_spans {b : List Token} {body : Block} (matched : Matched b)
    (h : Clean (Productions.whole limit).block
      (.reading (leftCurly :: (b ++ rightCurly :: rest)) d) body t) :
    t = .reading (rightCurly :: rest) d ∧
      Spans (Productions.whole limit).block d leftCurly b rightCurly body := by
  have ended : t = .reading (rightCurly :: rest) d := by
    cases Productions.Sound.block h rfl rfl with
    | mk _ items closes =>
      obtain ⟨used, same, spent⟩ := items.spent
      have there := (eq_of_matched matched spent rfl (by rw [closes]; rfl) same).2
      refine h.eq_reading (List.cons.inj there).2.symm ?_
      have run := h.run
      rw [← block_whole h.sane.finish (Nat.lt_succ_self _)] at run
      exact (lands_block _ _ _ run).before_end
  subst ended
  exact ⟨rfl, h.spans⟩

end Spans

/-! ## Branches -/

/-- Tokens that may stand between brackets. -/
abbrev Inside : Type := { ts : List Token // Matched ts }

/-- A condition and the block that is run if it holds. -/
structure Branch where
  condition : Inside
  body : Inside

/-- The branch with tokens after it. -/
def Branch.before (branch : Branch) (rest : List Token) : List Token :=
  leftParen :: (branch.condition ++ rightParen :: leftCurly :: (branch.body ++ rightCurly :: rest))

/-- At the depth, the branch is read as the condition and the block. -/
structure Branch.Reads (branch : Branch) (limit d : Nat) (c : Expression) (b : Block) : Prop where
  condition : Spans (grouped (.whole limit)) d leftParen branch.condition rightParen c
  body : Spans (Productions.whole limit).block d leftCurly branch.body rightCurly b

theorem conditional_eq (inner : Productions) (token : Token) :
    conditional limit inner token = (do
      expect .leftParen
      let condition ← grouped inner
      expect .leftCurly
      let consequence ← inner.block
      let otherwise ← alternative limit inner
      return .conditional token condition consequence otherwise) := by
  simp only [conditional, grouped, bind_assoc, pure_bind]

section Branch

variable {branch : Branch} {token first : Token} {rest : List Token} {e : Expression} {t : State}

set_option synthInstance.maxSize 400 in
theorem Clean.conditional_branch
    (h : Clean (Parser.conditional limit (.whole limit) token)
      (.reading (first :: branch.before rest) d) e t) :
    ∃ c b other, e = .conditional token c b other ∧ branch.Reads limit d c b ∧
      Clean (Parser.alternative limit (.whole limit)) (.reading (rightCurly :: rest) d) other
        t := by
  rw [conditional_eq] at h
  obtain ⟨_, u, opening, h⟩ := h.bind
  obtain ⟨-, rfl⟩ := expect_eq_ok opening.run
  obtain ⟨c, v, condition, h⟩ := h.bind
  obtain ⟨rfl, read⟩ := condition.grouped_spans branch.condition.2
  obtain ⟨_, w, brace, h⟩ := h.bind
  obtain ⟨-, rfl⟩ := expect_eq_ok brace.run
  obtain ⟨b, x, body, h⟩ := h.bind
  obtain ⟨rfl, run⟩ := body.block_spans branch.body.2
  obtain ⟨other, y, otherwise, h⟩ := h.bind
  obtain ⟨rfl, rfl⟩ := h.pure_eq
  exact ⟨c, b, other, rfl, ⟨read, run⟩, otherwise⟩

theorem Branch.Reads.conditional {c : Expression} {b : Block} {other : Option Block}
    (reads : branch.Reads limit d c b)
    (run : alternative limit (.whole limit) (.reading (rightCurly :: rest) d) = .ok other t) :
    Parser.conditional limit (.whole limit) token (.reading (first :: branch.before rest) d) =
      .ok (.conditional token c b other) t := by
  rw [conditional_eq]
  have opening : expect .leftParen (.reading (first :: branch.before rest) d) =
      .ok () (.reading (branch.before rest) d) := rfl
  rw [bind_of_ok opening, Branch.before, bind_of_ok (reads.condition _)]
  have brace (ts : List Token) : expect .leftCurly (.reading (rightParen :: leftCurly :: ts) d) =
      .ok () (.reading (leftCurly :: ts) d) := rfl
  rw [bind_of_ok (brace _), bind_of_ok (reads.body _), bind_of_ok run]
  rfl

end Branch

/-! ## A conditional as a statement -/

/-- Nothing follows, or the brace that closes the enclosing block does. -/
def Shut (tail : List Token) : Prop := ∀ t ∈ tail.head?, t.kind = .rightCurly

theorem Shut.peek {tail : List Token} (shut : Shut tail) (last : Token) (d : Nat) :
    (State.reading (last :: tail) d).peek.kind = .rightCurly ∨
      (State.reading (last :: tail) d).peek.kind = .endOfInput := by
  cases tail with
  | nil => exact .inr rfl
  | cons t ts => exact .inl (shut t rfl)

section Statement

variable {ts tail rest : List Token} {e : Expression} {found : List Statement} {t : State}

/-- What starts with `si` is an expression. -/
theorem statement_si : statement bound (.whole limit) (.reading (si :: ts) d) = (do
    let value ← (Productions.whole limit).expression .lowest
    skipSemicolon
    return some (.expression si value) : Parser (Option Statement)) (.reading (si :: ts) d) :=
  statement_of_ne nofun nofun nofun nofun fun named => nomatch named.1

theorem Clean.item_si
    (h : Clean (Parser.item bound (.whole limit)) (.reading (si :: ts) d) found t) :
    ∃ e u, d < limit ∧
      Clean (Parser.conditional limit (.whole limit) si) (.reading (si :: ts) (d + 1)) e u := by
  obtain ⟨one, u, read, -⟩ := h.bind
  have read := read.recovering
  obtain ⟨value, v, read, -⟩ := (Clean.mk read.sane (statement_si ▸ read.run) read.errors).bind
  have run := read.run
  rw [← expression_whole read.sane.finish .lowest (Nat.lt_succ_self _), Parser.expression] at run
  have nested := Clean.mk read.sane run read.errors
  obtain ⟨w, inside, -⟩ := nested.nested
  obtain ⟨e, x, operand, -⟩ := inside.bind
  exact ⟨e, x, nested.room, operand.current⟩

/-- A conditional with nothing after it is a statement by itself. -/
theorem item_of_conditional (room : d < limit) (shut : Shut tail)
    (run : conditional limit (.whole limit) si (.reading (si :: ts) (d + 1)) =
      .ok e (.reading (rightCurly :: tail) (d + 1))) :
    item bound (.whole limit) (.reading (si :: ts) d) =
      .ok [.expression si e] (.reading tail d) := by
  have next := shut.peek rightCurly
  have value : (Productions.whole limit).expression .lowest (.reading (si :: ts) d) =
      .ok e (.reading (rightCurly :: tail) d) := by
    rw [← expression_whole (s := .reading (si :: ts) d) rfl .lowest (Nat.lt_succ_self _),
      expression]
    have stop : ¬ BindingPower.lowest <
        .ofKind (State.reading (rightCurly :: tail) (d + 1)).peek.kind := by
      rcases next (d + 1) with kind | kind <;> rw [kind] <;> decide
    have operand (bound : Nat) : operand limit bound (.whole limit) (.reading (si :: ts) (d + 1)) =
        .ok e (.reading (rightCurly :: tail) (d + 1)) := run
    refine nested_of_ok (t := .reading (rightCurly :: tail) (d + 1)) room ?_
    exact (bind_of_ok (operand _)).trans (keepingDepth_of_ok (operators_of_not_lt stop))
  have skipped : skipSemicolon (.reading (rightCurly :: tail) d) =
      .ok () (.reading (rightCurly :: tail) d) := by
    rw [skipSemicolon_apply, if_neg]
    rcases next d with kind | kind <;> rw [kind] <;> decide
  have read : statement bound (.whole limit) (.reading (si :: ts) d) =
      .ok (some (.expression si e)) (.reading (rightCurly :: tail) d) := by
    rw [statement_si, bind_of_ok value, bind_of_ok skipped]
    rfl
  exact item_of_ok read

/-- Statements that start with `si` start with a conditional. -/
theorem Clean.collect_si {round : Parser (Option (List Statement))} [Onward round]
    (goes : round (.reading (si :: ts) d) =
      (some <$> Parser.item bound (.whole limit)) (.reading (si :: ts) d)) {n : Nat}
    (h : Clean (Bounded.collect round n) (.reading (si :: ts) d) found t) :
    ∃ e u, d < limit ∧
      Clean (Parser.conditional limit (.whole limit) si) (.reading (si :: ts) (d + 1)) e u := by
  cases n with
  | zero => exact h.exhausted.elim
  | succ n =>
    have item {one : Option (List Statement)} {u : State}
        (first : Clean round (.reading (si :: ts) d) one u) :
        ∃ statements, one = some statements ∧
          Clean (Parser.item bound (.whole limit)) (.reading (si :: ts) d) statements u :=
      (Clean.mk first.sane (goes ▸ first.run) first.errors).map_some
    rcases h.collect with ⟨-, first⟩ | ⟨_, u, _, -, first, -⟩
    · obtain ⟨_, none, -⟩ := item first
      cases none
    · obtain ⟨_, -, read⟩ := item first
      exact read.item_si

/-- A round that yields and then one that does not. -/
theorem collect_once {round : Parser (Option (List Statement))} {s t : State}
    (first : round s = .ok (some found) t) (last : round t = .ok none t) (n : Nat) :
    collect round (n + 2) s = .ok found t := by
  refine bind_eq_ok_iff.2 ⟨some found, t, first, bind_eq_ok_iff.2 ⟨[], t, ?_, ?_⟩⟩
  · exact bind_eq_ok_iff.2 ⟨none, t, last, rfl⟩
  · rw [List.append_nil]
    rfl

theorem Clean.block_si {b : Block}
    (h : Clean (Productions.whole limit).block (.reading (leftCurly :: si :: ts) d) b t) :
    ∃ e u, d < limit ∧
      Clean (Parser.conditional limit (.whole limit) si) (.reading (si :: ts) (d + 1)) e u := by
  have run := h.run
  rw [← block_whole h.sane.finish (Nat.lt_succ_self _)] at run
  obtain ⟨statements, u, read, -⟩ := (Clean.mk h.sane run h.errors).current.advance.bind
  exact read.collect_si (blockItem_of_ne leftCurly nofun nofun)

theorem block_of_item
    (read : ∀ bound, item bound (.whole limit) (.reading (si :: ts) d) =
      .ok found (.reading (rightCurly :: rest) d)) :
    (Productions.whole limit).block (.reading (leftCurly :: si :: ts) d) =
      .ok (.mk leftCurly found) (.reading (rightCurly :: rest) d) := by
  have enough : (State.reading (leftCurly :: si :: ts) d).tokens.length < ts.length + 3 :=
    Nat.lt_succ_self _
  rw [← block_whole rfl enough]
  have first : blockItem (ts.length + 3) (.whole limit) leftCurly (.reading (si :: ts) d) =
      .ok (some found) (.reading (rightCurly :: rest) d) := by
    rw [blockItem_of_ne (s := .reading (si :: ts) d) leftCurly nofun nofun,
      map_some_of_ok (read _)]
  have last : blockItem (ts.length + 3) (.whole limit) leftCurly
      (.reading (rightCurly :: rest) d) = .ok none (.reading (rightCurly :: rest) d) :=
    blockItem_of_rightCurly leftCurly rfl
  rw [block, current_bind, advance_bind]
  exact bind_eq_ok_iff.2 ⟨found, _, collect_once first last (ts.length + 1), rfl⟩

theorem Clean.program_si {p : Program}
    (h : Clean (Parser.program limit) (.reading (si :: ts) d) p t) :
    ∃ e u, d < limit ∧
      Clean (Parser.conditional limit (.whole limit) si) (.reading (si :: ts) (d + 1)) e u := by
  have run := h.run
  rw [← collect_whole h.sane.finish (Nat.lt_succ_self _)] at run
  exact (Clean.mk h.sane run h.errors).collect_si (programItem_of_ne nofun)

theorem program_of_item
    (read : ∀ bound, item bound (.whole limit) (.reading (si :: ts) d) =
      .ok found (.reading [] d)) :
    program limit (.reading (si :: ts) d) = .ok found (.reading [] d) := by
  have enough : (State.reading (si :: ts) d).tokens.length + 1 < ts.length + 3 :=
    Nat.lt_succ_self _
  rw [← collect_whole rfl enough]
  have first : programItem (ts.length + 3) (.whole limit) (.reading (si :: ts) d) =
      .ok (some found) (.reading [] d) := by
    rw [programItem_of_ne (s := .reading (si :: ts) d) nofun, map_some_of_ok (read _)]
  exact collect_once first (programItem_of_endOfInput rfl) (ts.length + 1)

end Statement

/-! ## Alternatives -/

section Alternative

variable {ts : List Token} {last : Token} {other : Option Block} {t : State}

theorem Clean.alternative_sino
    (h : Clean (Parser.alternative limit (.whole limit))
      (.reading (last :: sino :: leftCurly :: ts) d) other t) :
    ∃ b, other = some b ∧
      Clean (Productions.whole limit).block (.reading (leftCurly :: ts) d) b t := by
  obtain ⟨_, u, brace, h⟩ := h.peek.advance.bind
  obtain ⟨-, rfl⟩ := expect_eq_ok brace.run
  obtain ⟨b, v, read, h⟩ := h.bind
  obtain ⟨rfl, rfl⟩ := h.pure_eq
  exact ⟨b, rfl, read⟩

theorem alternative_sino {b : Block}
    (run : (Productions.whole limit).block (.reading (leftCurly :: ts) d) = .ok b t) :
    alternative limit (.whole limit) (.reading (last :: sino :: leftCurly :: ts) d) =
      .ok (some b) t :=
  bind_of_ok run

theorem Clean.alternative_sinosi
    (h : Clean (Parser.alternative limit (.whole limit)) (.reading (last :: sinosi :: ts) d)
      other t) :
    ∃ e u, other = some (.mk sinosi [.expression sinosi e]) ∧ d < limit ∧ t = u.leave ∧
      Clean (Parser.conditional limit (.whole limit) sinosi) (.reading (sinosi :: ts) (d + 1))
        e u := by
  obtain ⟨e, u, chained, h⟩ := h.peek.advance.current.bind
  obtain ⟨rfl, rfl⟩ := h.pure_eq
  obtain ⟨v, inside, rfl⟩ := chained.nested
  have run := inside.run
  rw [← conditional_whole inside.sane.finish] at run
  exact ⟨e, v, rfl, chained.room, rfl, inside.sane, run, inside.errors⟩

theorem alternative_sinosi {e : Expression} {u : State} (room : d < limit)
    (run : conditional limit (.whole limit) sinosi (.reading (sinosi :: ts) (d + 1)) = .ok e u) :
    alternative limit (.whole limit) (.reading (last :: sinosi :: ts) d) =
      .ok (some (.mk sinosi [.expression sinosi e])) u.leave := by
  rw [conditional_whole rfl] at run
  exact bind_of_ok (nested_of_ok (s := .reading (sinosi :: ts) d) room run)

end Alternative

/-! ## Spellings of a chain -/

/-- The tokens spell the branches after the first and the block of the last alternative.  Each
branch is spelled with `sinosi`, or as a conditional in a block after `sino`. -/
inductive Spelled : List Branch → Option Inside → List Token → Prop
  | nothing : Spelled [] none []
  | sino (body : Inside) :
      Spelled [] (some body) (sino :: leftCurly :: (body ++ [rightCurly]))
  | sinosi {branches : List Branch} {last : Option Inside} {ts : List Token} (branch : Branch) :
      Spelled branches last ts → Spelled (branch :: branches) last (sinosi :: branch.before ts)
  | nested {branches : List Branch} {last : Option Inside} {ts : List Token} (branch : Branch) :
      Spelled branches last ts → Spelled (branch :: branches) last
        (sino :: leftCurly :: si :: branch.before (ts ++ [rightCurly]))

/-- A block with nothing but a conditional in it, without tokens. -/
def conditionalBlock (c : Expression) (b : Block) (other : Option Block) : Block :=
  .mk default [.expression default (.conditional default c b other)]

/-- At the depth, the branches and the block of the last alternative are read as the alternative,
tokens apart.  Each branch is one level deeper than the one before. -/
inductive ReadsAs (limit : Nat) : Nat → List Branch → Option Inside → Option Block → Prop
  | nothing {d : Nat} : ReadsAs limit d [] none none
  | sino {d : Nat} {body : Inside} {b : Block} :
      Spans (Productions.whole limit).block d leftCurly body rightCurly b →
      ReadsAs limit d [] (some body) (some b.erase)
  | branch {d : Nat} {branch : Branch} {branches : List Branch} {last : Option Inside}
      {c : Expression} {b : Block} {other : Option Block} :
      d < limit → branch.Reads limit (d + 1) c b → ReadsAs limit (d + 1) branches last other →
      ReadsAs limit d (branch :: branches) last (some (conditionalBlock c.erase b.erase other))

theorem Branch.before_append (branch : Branch) (ts us : List Token) :
    branch.before ts ++ us = branch.before (ts ++ us) := by
  simp [before]

theorem shut_rightCurly (tail : List Token) : Shut (rightCurly :: tail) := by
  rintro t ⟨⟩
  rfl

section Spelled

variable {branches : List Branch} {last : Option Inside} {ts tail : List Token}

theorem Spelled.readsAs (spelled : Spelled branches last ts) :
    ∀ {d : Nat} {tail : List Token} {other : Option Block} {t : State}, Shut tail →
      Clean (alternative limit (.whole limit)) (.reading (rightCurly :: (ts ++ tail)) d) other t →
      t = .reading (rightCurly :: tail) d ∧
        ReadsAs limit d branches last (Block.eraseOption other) := by
  induction spelled with
  | nothing =>
    intro d tail other t shut h
    have run := h.run
    rw [List.nil_append, alternative_of_ne] at run
    · cases run
      exact ⟨rfl, .nothing⟩
    all_goals rcases shut.peek rightCurly d with kind | kind <;> rw [kind] <;> decide
  | sino body =>
    intro d tail other t _ h
    rw [List.cons_append, List.cons_append, List.append_assoc] at h
    obtain ⟨b, rfl, read⟩ := h.alternative_sino
    obtain ⟨rfl, spans⟩ := read.block_spans body.2
    exact ⟨rfl, .sino spans⟩
  | sinosi branch _ ih =>
    intro d tail other t shut h
    rw [List.cons_append, branch.before_append] at h
    obtain ⟨e, u, rfl, room, rfl, read⟩ := h.alternative_sinosi
    obtain ⟨c, b, further, rfl, reads, rest⟩ := read.conditional_branch
    obtain ⟨rfl, others⟩ := ih shut rest
    exact ⟨rfl, .branch room reads others⟩
  | nested branch _ ih =>
    intro d tail other t shut h
    simp only [List.cons_append, branch.before_append, List.append_assoc] at h
    obtain ⟨b, rfl, read⟩ := h.alternative_sino
    obtain ⟨e, u, room, inside⟩ := read.block_si
    obtain ⟨c, b, further, rfl, reads, rest⟩ := inside.conditional_branch
    obtain ⟨rfl, others⟩ := ih (shut_rightCurly tail) rest
    -- what the block holds is that conditional and nothing else
    have own := block_of_item fun _ =>
      item_of_conditional room (shut_rightCurly tail) (reads.conditional rest.run)
    cases own.symm.trans read.run
    exact ⟨rfl, .branch room reads others⟩

theorem Spelled.alternative (spelled : Spelled branches last ts) :
    ∀ {d : Nat} {tail : List Token} {r : Option Block}, Shut tail →
      ReadsAs limit d branches last r →
      ∃ other, Parser.alternative limit (.whole limit) (.reading (rightCurly :: (ts ++ tail)) d) =
          .ok other (.reading (rightCurly :: tail) d) ∧ Block.eraseOption other = r := by
  induction spelled with
  | nothing =>
    rintro d tail _ shut ⟨⟩
    refine ⟨none, ?_, rfl⟩
    rw [List.nil_append, alternative_of_ne]
    all_goals rcases shut.peek rightCurly d with kind | kind <;> rw [kind] <;> decide
  | sino body =>
    rintro d tail _ _ (_ | ⟨spans⟩)
    rw [List.cons_append, List.cons_append, List.append_assoc]
    exact ⟨_, alternative_sino (spans tail), rfl⟩
  | sinosi branch _ ih =>
    rintro d tail _ shut (_ | _ | ⟨room, reads, others⟩)
    obtain ⟨other, run, rfl⟩ := ih shut others
    rw [List.cons_append, branch.before_append]
    exact ⟨_, alternative_sinosi room (reads.conditional run), rfl⟩
  | nested branch _ ih =>
    rintro d tail _ shut (_ | _ | ⟨room, reads, others⟩)
    obtain ⟨other, run, rfl⟩ := ih (shut_rightCurly tail) others
    simp only [List.cons_append, branch.before_append, List.append_assoc]
    have inside := block_of_item fun _ =>
      item_of_conditional room (shut_rightCurly tail) (reads.conditional run)
    exact ⟨_, alternative_sino inside, rfl⟩

/-- A text that is a chain of conditionals is read as the chain. -/
theorem Spelled.program_iff (spelled : Spelled branches last ts) {first : Branch} {q : Program}
    (sane : (State.reading (si :: first.before ts) 0).Sane) :
    (∃ p t, Clean (program limit) (.reading (si :: first.before ts) 0) p t ∧ p.erase = q) ↔
      ReadsAs limit 0 (first :: branches) last (some (.mk default q)) := by
  have nothing : Shut [] := nofun
  constructor
  · rintro ⟨p, t, h, rfl⟩
    obtain ⟨e, u, room, inside⟩ := h.program_si
    obtain ⟨c, b, other, rfl, reads, rest⟩ := inside.conditional_branch
    rw [← List.append_nil ts] at rest
    obtain ⟨rfl, others⟩ := spelled.readsAs nothing rest
    rw [List.append_nil ts] at rest
    have own := program_of_item fun _ =>
      item_of_conditional room nothing (reads.conditional rest.run)
    cases own.symm.trans h.run
    exact .branch room reads others
  · intro chain
    cases chain with
    | branch room reads others =>
      obtain ⟨other, run, rfl⟩ := spelled.alternative nothing others
      rw [List.append_nil ts] at run
      have own := program_of_item fun _ =>
        item_of_conditional room nothing (reads.conditional run)
      exact ⟨_, _, ⟨sane, own, rfl⟩, rfl⟩

end Spelled

end Parser

end Guion
