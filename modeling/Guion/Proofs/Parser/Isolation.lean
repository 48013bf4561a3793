import Guion.Limits
import Guion.Proofs.Parser.Finishing
import Guion.Proofs.Parser.Recovery
import Guion.Proofs.Parser.Transport
import Guion.Proofs.Token.Joining

/-!
# Errors inside a block do not damage what follows it

A text after a semicolon before which all braces are closed is read as it is read on its own: the
parser gets past the semicolon in a state that differs from the start of the text in its errors and
places only (`Boundary.exists_passed`), and from there it does the same (`Boundary.program_rest`).
So what follows a block is untouched by the errors inside it (`parse_after_semicolon`), unless an
operand is due right where a brace closes.
-/

set_option autoImplicit false

namespace Guion

/-- At other places, a text starts out as it does on its own. -/
theorem Parser.Transport.state_ofScanned (g : Position → Position) (s : Scanned) :
    (moving g #[]).state (.ofScanned s) = .ofScanned (s.move g) := by
  simp [state_moving, State.ofScanned, Scanned.move]

namespace Parser.Boundary

open Bounded

variable {B : Boundary}

/-! ## Getting past the boundary -/

variable (B) in
/-- The boundary was passed on the way from `s` to `u`. -/
structure Passed (s u : State) : Prop where
  tokens : u.tokens = B.rest
  depth : u.depth = s.depth
  ahead : s.Ahead u
  errors : B.Clear u

/-- Reading statements gets past the boundary and goes on from there. -/
theorem exists_passed {bound : Nat} {inner : Productions} [inner.Onward] [inner.Steady]
    [B.Inner inner] {t : State} (n : Nat) : ∀ {s : State} {found : List Statement}, B.After 0 s →
      collect (programItem bound inner) n s = .ok found t →
      B.Tainted t ∨ ∃ before after u m, B.Passed s u ∧ (∀ st ∈ before, B.Starts st) ∧
        collect (programItem bound inner) m u = .ok after t ∧ found = before ++ after := by
  induction n with
  | zero =>
    intro s found _ run
    cases run
  | succ n ih =>
    rintro s found (within | ⟨-, tokens, clear⟩) run
    · obtain ⟨round, u, first, rest⟩ := bind_eq_ok_iff.1 run
      rw [programItem_of_ne within.before_end, map_eq_bind] at first
      obtain ⟨here, v, read, same⟩ := bind_eq_ok_iff.1 first
      cases same
      obtain ⟨more, w, others, same⟩ := bind_eq_ok_iff.1 rest
      cases same
      have depth : u.depth = s.depth := Keeps.ok (R := State.SameDepth) read
      have ahead : s.Ahead u := Keeps.ok (R := State.Ahead) read
      -- one statement leads on, or leaves a mark that stays
      have ends := leads_item (B := B) bound inner s ⟨within, fun _ => rfl⟩
      rw [read] at ends
      rcases ends with tainted | ⟨after, starts⟩
      · exact .inl (tainted.onward (Keeps.ok others))
      · rcases ih after others with tainted | ⟨before, after, u, m, passed, begun, last, rfl⟩
        · exact .inl tainted
        · refine .inr ⟨here ++ before, after, u, m, ?_, ?_, last, (List.append_assoc _ _ _).symm⟩
          · exact ⟨passed.tokens, passed.depth.trans depth, IsTrans.trans _ _ _ ahead passed.ahead,
              passed.errors⟩
          · exact fun st member => (List.mem_append.1 member).elim (starts st) (begun st)
    · exact .inr ⟨[], found, s, n + 1, ⟨tokens, rfl, refl s, clear⟩, by simp, run, rfl⟩

/-- A program that is read on its own is read the same way at another place, after other errors and
with larger bounds. -/
theorem collect_of_program (g : Position → Position) (earlier : Array SyntaxError)
    {limit bound n : Nat} {s t : State} {found : Program}
    (inside : s.tokens.length + 1 ≤ bound) (rounds : s.tokens.length + 2 ≤ n)
    (run : program limit s = .ok found t) :
    collect (programItem (bound + 1) (Productions.upTo limit bound)) n
        ((Transport.moving g earlier).state s) =
      .ok (found.move g) ((Transport.moving g earlier).state t) := by
  have own : collect (programItem (s.tokens.length + 2) (Productions.upTo limit _))
    (s.tokens.length + 2) s = .ok found t := run
  let T := Transport.moving g earlier
  have deeper : T.Inner (Productions.upTo limit (s.tokens.length + 1))
      (Productions.upTo limit bound) :=
    Transport.inner_upTo (.inl rfl) inside
  have unexcused : ¬ T.Excused (.ok found t) := by
    rintro (⟨_, _, excused⟩ | ⟨sequel, -⟩)
    · exact excused
    · exact sequel rfl
  have carried := (Transport.carries_programItem deeper (Nat.succ_le_succ inside)).collect rounds s
  rw [own] at carried
  rw [carried unexcused, Program.move, Statement.moveAll_eq]
  rfl

/-- What stands after the boundary is read as on its own, at its place. -/
theorem program_rest {limit : Nat} {s t : State} {found : Program} {g : Position → Position}
    {second : Scanned} (start : B.Within 0 s) (depth : s.depth = 0)
    (rest : B.rest = (second.move g).tokens) (finish : s.finish = (second.move g).finish)
    (ended : second.finish.kind = .endOfInput) (run : program limit s = .ok found t) :
    B.Tainted t ∨ ∃ before earlier, (∀ st ∈ before, B.Starts st) ∧ (∀ e ∈ earlier, B.Found e) ∧
      found = before ++ (second.parse limit).program.move g ∧
      t.errors.toList = earlier ++ (second.parse limit).errors.map (SyntaxError.move g) := by
  rcases exists_passed _ (.inl start) run with
    tainted | ⟨before, after, u, m, passed, starts, last, rfl⟩
  · exact .inl tainted
  have tokens := passed.tokens.trans rest
  have same : (Transport.moving g u.errors).state (.ofScanned second) = u := by
    rw [Transport.state_moving, State.ofScanned, ← depth, ← passed.depth]
    simp only [Scanned.move] at tokens finish
    rw [← tokens, ← finish, ← passed.ahead.finish, Array.map_empty, Array.append_empty]
  have fewer : second.tokens.length + 1 ≤ s.tokens.length + 1 := by
    have shorter := passed.ahead.length_tokens_le
    rw [tokens] at shorter
    simpa [Scanned.move] using shorter
  obtain ⟨alone, v, own⟩ := program_eq_ok limit (s := .ofScanned second) ended
  have parsed : second.parse limit = ⟨alone, v.errors.toList⟩ := by
    rw [Scanned.parse, EStateM.run, own]
  -- with enough rounds for both, the two runs are one
  have carried := collect_of_program g u.errors fewer (Nat.le_add_left _ m) own
  rw [same, collect_of_le (Nat.le_add_right m _) last] at carried
  cases carried
  refine .inr ⟨before, u.errors.toList, starts, passed.errors, ?_, ?_⟩
  · rw [parsed]
  · rw [parsed]
    simp [Transport.state_moving]

end Parser.Boundary

/-! ## Texts -/

theorem balanced_map (g : Position → Position) (ts : List Token) : ∀ opened,
    balanced opened (ts.map (Token.move g)) = balanced opened ts := by
  induction ts with
  | nil => exact fun _ => rfl
  | cons t ts ih =>
    intro opened
    rw [List.map_cons, balanced_cons, balanced_cons]
    simp only [ih]
    rfl

/-- An operand was missing right between a token that wants one and a closing brace. -/
def SyntaxError.missingBeforeBrace (tokens : List Token) (e : SyntaxError) : Bool :=
  e.fault.atOperand && (tokens.zip tokens.tail).any fun pair =>
    pair.1.kind.wantsOperand && pair.2.kind = .rightCurly && e.pos = pair.2.pos

theorem mem_zip_tail {p t : Token} {ts : List Token} (h : [p, t] <:+: ts) :
    (p, t) ∈ ts.zip ts.tail := by
  obtain ⟨before, after, rfl⟩ := h
  induction before with
  | nil => exact List.mem_cons_self
  | cons u before ih =>
    cases before with
    | nil => exact List.mem_cons_of_mem _ ih
    | cons v before => exact List.mem_cons_of_mem _ ih

theorem Parser.Boundary.Stuck.missingBeforeBrace {B : Boundary} {e : SyntaxError} (h : B.Stuck e) :
    e.missingBeforeBrace (B.front ++ [B.semicolon]) = true := by
  obtain ⟨due, t, ⟨closing, p, wants, pair⟩, pos⟩ := h
  refine Bool.and_eq_true_iff.2 ⟨due, List.any_eq_true.2 ⟨(p, t), ?_, ?_⟩⟩
  · exact mem_zip_tail (pair.trans (List.prefix_append _ _).isInfix)
  · simp [wants, closing, pos]

/-- What follows a semicolon with all braces closed is read as on its own, unless an operand was due
before it where a brace closes. -/
theorem parse_after_semicolon (limit : Nat) {first : String} {front : List Token}
    {semicolon : Token}
    (closed : ∀ t ∈ (scan first).tokens, t.unterminated = false)
    (tokens : (scan first).tokens = front ++ [semicolon]) (kind : semicolon.kind = .semicolon)
    (braces : balanced 0 front = true) (second : String) :
    (∃ e ∈ (parse limit (first ++ "\n" ++ second)).errors,
      e.missingBeforeBrace (scan first).tokens = true) ∨
    ∃ before earlier,
      (∀ st ∈ before, st.token.pos.offset < (Position.afterLine first).offset) ∧
      (∀ e ∈ earlier, e.pos.offset < (Position.afterLine first).offset) ∧
      (parse limit (first ++ "\n" ++ second)).program =
        before ++ (parse limit second).program.move (Position.afterLine first).shift ∧
      (parse limit (first ++ "\n" ++ second)).errors = earlier ++
        (parse limit second).errors.map (SyntaxError.move (Position.afterLine first).shift) := by
  have lexed : ∀ t ∈ front ++ [semicolon], t.kind ≠ .endOfInput := by
    rw [← tokens]
    exact fun t member => (lexed_scan first t member).not_end
  have nearer : ∀ t ∈ front ++ [semicolon], t.pos.offset < (Position.afterLine first).offset := by
    rw [← tokens, Position.afterLine, Position.advance_append]
    exact fun t member => Nat.lt_of_lt_of_le (offset_scan first t member)
      (Position.offset_le_advance _ _)
  let B : Parser.Boundary :=
    { front, semicolon, kind
      rest := ((scan second).move (Position.afterLine first).shift).tokens
      inside := fun t member => lexed t (List.mem_append_left _ member) }
  have joined := scan_newline closed second
  have start : B.Within 0 (.ofScanned (scan (first ++ "\n" ++ second))) := by
    refine ⟨⟨0, Nat.le_refl 0, ?_⟩, fun e none => absurd none (by simp [Parser.State.ofScanned])⟩
    rw [joined, tokens, List.append_assoc]
    exact ⟨front, List.suffix_refl _, braces, rfl⟩
  obtain ⟨program, t, run⟩ := Parser.program_eq_ok limit
    (Parser.State.sane_ofScanned (first ++ "\n" ++ second)).finish
  have parsed : parse limit (first ++ "\n" ++ second) = ⟨program, t.errors.toList⟩ := by
    rw [parse, Scanned.parse, EStateM.run, run]
  rw [parsed]
  rcases Parser.Boundary.program_rest start rfl rfl (by rw [joined]; rfl) (kind_finish_scan second)
    run with ⟨e, member, stuck⟩ | ⟨before, earlier, starts, found, same, errors⟩
  · exact .inl ⟨e, member, tokens ▸ stuck.missingBeforeBrace⟩
  · refine .inr ⟨before, earlier, fun st member => nearer _ (starts st member), ?_, same, errors⟩
    intro e member
    obtain ⟨t, inside, pos⟩ := found e member
    rw [pos]
    exact nearer t inside

/-- A function with the given body, and a semicolon after it. -/
def enclosed (body : String) : String := "func f() \x7b" ++ "\n" ++ body ++ "\n" ++ "\x7d ;"

/-- The braces around a body are balanced when those in it are, and the semicolon comes last. -/
theorem tokens_enclosed {body : String} (closed : ∀ t ∈ (scan body).tokens, t.unterminated = false)
    (braces : balanced 0 (scan body).tokens = true) :
    (∀ t ∈ (scan (enclosed body)).tokens, t.unterminated = false) ∧
    ∃ front semicolon, (scan (enclosed body)).tokens = front ++ [semicolon] ∧
      semicolon.kind = .semicolon ∧ balanced 0 front = true := by
  have opening : (scan "func f() \x7b").tokens = [⟨.func, "func", ⟨0, 1, 1⟩⟩,
      ⟨.identifier, "f", ⟨5, 1, 6⟩⟩, ⟨.leftParen, "(", ⟨6, 1, 7⟩⟩, ⟨.rightParen, ")", ⟨7, 1, 8⟩⟩,
      ⟨.leftCurly, "\x7b", ⟨9, 1, 10⟩⟩] := by decide +kernel
  have closing : (scan "\x7d ;").tokens =
      [⟨.rightCurly, "\x7d", ⟨0, 1, 1⟩⟩, ⟨.semicolon, ";", ⟨2, 1, 3⟩⟩] := by decide +kernel
  have header : ∀ t ∈ (scan "func f() \x7b").tokens, t.unterminated = false := by
    rw [opening]
    decide
  have upTo : ∀ t ∈ (scan ("func f() \x7b" ++ "\n" ++ body)).tokens, t.unterminated = false := by
    rw [tokens_newline header]
    exact List.forall_mem_append.2 ⟨header, unterminated_move closed _⟩
  rw [enclosed, tokens_newline upTo, closing]
  refine ⟨List.forall_mem_append.2 ⟨upTo, unterminated_move (by decide) _⟩, ?_⟩
  rw [tokens_newline header, opening]
  refine ⟨_ ++ [_], _, (List.append_assoc _ [_] [_]).symm, rfl, ?_⟩
  -- past the header one brace is open, and the last one closes it
  exact balanced_append ((balanced_map _ _ 0).trans braces) 1 [_]

/-- Errors inside a block do not damage what follows it, as long as no operand is due right where a
brace closes: what follows is read as on its own, and no error is found in it. -/
theorem errors_stay_in_block (limit : Nat) (body rest : String)
    (closed : ∀ t ∈ (scan body).tokens, t.unterminated = false)
    (braces : balanced 0 (scan body).tokens = true)
    (clean : (parse limit rest).errors = [])
    (operands : ∀ e ∈ (parse limit (enclosed body ++ "\n" ++ rest)).errors,
      e.missingBeforeBrace (scan (enclosed body)).tokens = false) :
    (∃ before,
      (∀ st ∈ before, st.token.pos.offset < (Position.afterLine (enclosed body)).offset) ∧
      (parse limit (enclosed body ++ "\n" ++ rest)).program =
        before ++ (parse limit rest).program.move (Position.afterLine (enclosed body)).shift) ∧
    ∀ e ∈ (parse limit (enclosed body ++ "\n" ++ rest)).errors,
      e.pos.offset < (Position.afterLine (enclosed body)).offset := by
  obtain ⟨terminated, front, semicolon, tokens, kind, balanced⟩ := tokens_enclosed closed braces
  rcases parse_after_semicolon limit terminated tokens kind balanced rest with
    ⟨e, member, missing⟩ | ⟨before, earlier, starts, nearer, same, errors⟩
  · rw [operands e member] at missing
    cases missing
  · rw [clean, List.map_nil, List.append_nil] at errors
    exact ⟨⟨before, starts, same⟩, errors ▸ nearer⟩

/-- A conditional without its closing parenthesis, with a block of its own. -/
theorem errors_stay_in_block_parenthesis :
    (parse 64 (enclosed "si (a \x7b b \x7d" ++ "\n" ++ "x")).errors ≠ [] ∧
    (∃ before,
      (∀ st ∈ before,
        st.token.pos.offset < (Position.afterLine (enclosed "si (a \x7b b \x7d")).offset) ∧
      (parse 64 (enclosed "si (a \x7b b \x7d" ++ "\n" ++ "x")).program = before ++
        (parse 64 "x").program.move (Position.afterLine (enclosed "si (a \x7b b \x7d")).shift) ∧
    ∀ e ∈ (parse 64 (enclosed "si (a \x7b b \x7d" ++ "\n" ++ "x")).errors,
      e.pos.offset < (Position.afterLine (enclosed "si (a \x7b b \x7d")).offset :=
  ⟨by decide +kernel, errors_stay_in_block 64 "si (a \x7b b \x7d" "x" (by decide +kernel)
    (by decide +kernel) (by decide +kernel) (by decide +kernel)⟩

/-- An operand that is missing before the brace of its block takes what follows the block with it:
the brace is skipped, and the block goes on to the end of input. -/
theorem errors_leave_block :
    ¬ ∀ body rest : String, (∀ t ∈ (scan body).tokens, t.unterminated = false) →
      balanced 0 (scan body).tokens = true → (parse ({} : Limits).nesting rest).errors = [] →
      (∃ before, (parse ({} : Limits).nesting (enclosed body ++ "\n" ++ rest)).program =
        before ++ (parse ({} : Limits).nesting rest).program.move
          (Position.afterLine (enclosed body)).shift) ∧
      ∀ e ∈ (parse ({} : Limits).nesting (enclosed body ++ "\n" ++ rest)).errors,
        e.pos.offset < (Position.afterLine (enclosed body)).offset := by
  intro isolated
  obtain ⟨⟨before, same⟩, -⟩ := isolated "(" "x" (by decide +kernel) (by decide +kernel)
    (by decide +kernel)
  have none : (parse ({} : Limits).nesting (enclosed "(" ++ "\n" ++ "x")).program.length = 0 := by
    decide +kernel
  have one : ((parse ({} : Limits).nesting "x").program.move
      (Position.afterLine (enclosed "(")).shift).length = 1 := by
    decide +kernel
  rw [same, List.length_append, one] at none
  cases none

end Guion
