import Guion.Proofs.Parser.Balance
import Guion.Proofs.Parser.Finishing

/-!
# The depth counter

From every state whose depth is within the limit, each production ends at the depth that it started
at, whether it succeeds or fails; only the loop over operators may end deeper, and the expression
that runs it goes back.  Between the statements of a program the depth is zero (`depth_balanced`).

What happens while a production runs is stated with productions that check every change of the depth
(`Checked`): they stop as soon as the depth would exceed the limit, and where a depth of zero would
have to be lowered.  No check ever fails: a level is entered only below the limit, and what runs
inside leaves the level as it was.  So the checked productions are equal to the plain ones, and
the equality goes from the productions one level further in to those one level up.
-/

set_option autoImplicit false

namespace Guion

namespace Parser

open Bounded

variable {α : Type}

/-- An operand and the operators after it: an expression without the level it is nested at. -/
def chain (limit bound : Nat) (inner : Productions) (power : BindingPower) : Parser Expression := do
  let left ← operand limit bound inner
  keepingDepth (operators limit bound inner power bound left)

/-! ## Productions that check the depth -/

namespace Checked

/-- The state at another depth, if there is such a depth and it does not exceed the limit. -/
def moved? (limit : Nat) (s : State) : Option Nat → Option State
  | none => none
  | some depth => if depth ≤ limit then some { s with depth } else none

/-- One level less, if there is one. -/
def lowered? : Nat → Option Nat
  | 0 => none
  | depth + 1 => some depth

/-- Runs `p` and then changes the state by `after`, however `p` ends.  Stops where there is no such
state. -/
def ensuring (after : State → Option State) (p : Parser α) : Parser α := fun s =>
  match p s with
  | .ok a t => match after t with
    | some u => .ok a u
    | none => .error .exhausted t
  | .error stop t => match after t with
    | some u => .error stop u
    | none => .error .exhausted t

/-- Enters one more level, with a check. -/
def enter (limit : Nat) : Parser Unit := fun s =>
  if limit ≤ s.depth then .error (.error ⟨s.current.pos, .nestingTooDeep limit⟩) s
  else match moved? limit s (some (s.depth + 1)) with
    | some t => .ok () t
    | none => .error .exhausted s

/-- Runs a parser one level deeper, with checks on the way there and back. -/
def nested (limit : Nat) (p : Parser α) : Parser α := do
  enter limit
  ensuring (fun t => moved? limit t (lowered? t.depth)) p

/-- Runs a parser and goes back to the depth it started at, with a check. -/
def keepingDepth (limit : Nat) (p : Parser α) : Parser α := do
  let s ← get
  ensuring (fun t => moved? limit t (some s.depth)) p

/-- What follows the first branch of a conditional, with checks. -/
def alternative (limit : Nat) (inner : Productions) : Parser (Option Block) := do
  match (← peek).kind with
  | .sino =>
    advance
    expect .leftCurly
    return some (← inner.block)
  | .sinosi =>
    advance
    let token ← current
    let chained ← nested limit (inner.conditional token)
    return some (.mk token [.expression token chained])
  | _ => return none

/-- A conditional, with checks. -/
def conditional (limit : Nat) (inner : Productions) (token : Token) : Parser Expression := do
  expect .leftParen
  let condition ← nextExpression inner .lowest
  expect .rightParen
  expect .leftCurly
  let consequence ← inner.block
  let otherwise ← alternative limit inner
  return .conditional token condition consequence otherwise

/-- The construct that the current token starts, with checks.  Only conditionals enter a level by
themselves. -/
def operand (limit bound : Nat) (inner : Productions) : Parser Expression := do
  let token ← current
  if token.kind = .si then conditional limit inner token
  else Parser.operand limit bound inner

/-- Extends `left` by the operators that bind it more strongly than `power`, with checks. -/
def operators (limit bound : Nat) (inner : Productions) (power : BindingPower) :
    Nat → Expression → Parser Expression
  | 0, _ => exhausted
  | n + 1, left => do
    if power < .ofKind (← peek).kind then
      enter limit
      advance
      let wider ← extend bound inner left
      operators limit bound inner power n wider
    else return left

/-- An operand and the operators after it, with checks. -/
def chain (limit bound : Nat) (inner : Productions) (power : BindingPower) : Parser Expression := do
  let left ← operand limit bound inner
  keepingDepth limit (operators limit bound inner power bound left)

/-- The productions at one level, with checks, given those one level further in. -/
def next (limit bound : Nat) (inner : Productions) : Productions where
  expression power := nested limit (chain limit bound inner power)
  block := Parser.block bound inner
  conditional := conditional limit inner

/-- The productions for states with fewer than `bound` tokens, with checks. -/
def upTo (limit : Nat) : Nat → Productions
  | 0 => ⟨fun _ => exhausted, exhausted, fun _ => exhausted⟩
  | bound + 1 => next limit (bound + 1) (upTo limit bound)

/-- A program, with checks. -/
def program (limit : Nat) : Parser Program := do
  let inside := (← get).tokens.length + 1
  collect (programItem (inside + 1) (upTo limit inside)) (inside + 1)

/-! ## Checks do not fail -/

section Steps

variable {limit bound : Nat} {p q : Parser α}

theorem moved?_of_le {depth : Nat} (within : depth ≤ limit) (s : State) :
    moved? limit s (some depth) = some { s with depth } :=
  if_pos within

/-- A level is entered only below the limit. -/
theorem enter_eq (limit : Nat) : enter limit = Parser.enter limit := by
  funext s
  rw [enter]
  rcases enter_cases limit s with ⟨room, entered⟩ | ⟨full, refused⟩
  · rw [entered, if_neg (Nat.not_le.2 room), moved?_of_le room]
  · rw [refused, if_pos full]

/-- The check on the way back passes where it finds the depth that it goes on with. -/
theorem ensuring_eq {after : State → Option State} {plain : State → State} {s : State}
    (same : q s = p s) (found : after (final (p s)) = some (plain (final (p s)))) :
    ensuring after q s = Bounded.ensuring plain p s := by
  rw [ensuring, Bounded.ensuring, same]
  cases run : p s with
  | ok a t =>
    rw [run] at found
    simp only [final] at found
    simp only [found]
  | error stop t =>
    rw [run] at found
    simp only [final] at found
    simp only [found]

/-- A level that was entered is there to be left, if what runs inside leaves it as it was. -/
theorem nested_eq [steady : Steady p] (same : ∀ s : State, s.depth ≤ limit → q s = p s) :
    nested limit q = Parser.nested limit p := by
  funext s
  rw [nested, enter_eq, Parser.nested]
  rcases enter_cases limit s with ⟨room, entered⟩ | ⟨-, refused⟩
  · rw [bind_of_ok entered, bind_of_ok entered]
    -- what runs inside ends where it started, one level above zero
    have inside : (final (p { s with depth := s.depth + 1 })).depth = s.depth + 1 :=
      steady.final_rel { s with depth := s.depth + 1 }
    refine ensuring_eq (same _ room) ?_
    rw [State.leave, inside]
    exact moved?_of_le (Nat.le_of_lt room) _
  · rw [bind_of_error refused, bind_of_error refused]

/-- Within the limit, the depth to go back to is within the limit. -/
theorem keepingDepth_eq (same : q = p) {s : State} (within : s.depth ≤ limit) :
    keepingDepth limit q s = Parser.keepingDepth p s := by
  subst same
  exact ensuring_eq rfl (moved?_of_le within _)

end Steps

section Productions

variable (limit bound : Nat) (inner : Productions) [inner.Steady]

theorem alternative_eq : alternative limit inner = Parser.alternative limit inner := by
  have deeper (token : Token) : nested limit (inner.conditional token) =
      Parser.nested limit (inner.conditional token) :=
    nested_eq fun _ _ => rfl
  funext s
  rw [alternative, Parser.alternative, peek_bind, peek_bind]
  cases s.peek.kind with
  | sinosi => simp only [deeper]
  | _ => rfl

theorem conditional_eq : conditional limit inner = Parser.conditional limit inner := by
  funext token
  simp only [conditional, Parser.conditional, alternative_eq]

theorem operand_eq : operand limit bound inner = Parser.operand limit bound inner := by
  funext s
  rw [operand, current_bind]
  by_cases si : s.current.kind = .si
  · rw [if_pos si, Parser.operand, current_bind, conditional_eq]
    simp only [si]
  · rw [if_neg si]

omit [inner.Steady] in
theorem operators_eq (power : BindingPower) (n : Nat) (left : Expression) :
    operators limit bound inner power n left = Parser.operators limit bound inner power n left := by
  induction n generalizing left with
  | zero => rfl
  | succ n ih =>
    -- the loop only ever enters levels: going back is left to what runs it
    simp only [operators, Parser.operators, enter_eq, ih]

/-- Before the operators the depth is as it was before the operand. -/
theorem chain_eq (power : BindingPower) {s : State} (within : s.depth ≤ limit) :
    chain limit bound inner power s = Parser.chain limit bound inner power s := by
  rw [chain, Parser.chain, operand_eq]
  cases run : Parser.operand limit bound inner s with
  | ok left t =>
    have kept : t.depth = s.depth := Keeps.ok (R := State.SameDepth) run
    rw [bind_of_ok run, bind_of_ok run]
    exact keepingDepth_eq (operators_eq limit bound inner power bound left) (kept ▸ within)
  | error stop t => rw [bind_of_error run, bind_of_error run]

instance (power : BindingPower) : Steady (Parser.chain limit bound inner power) := by
  rw [Parser.chain]
  infer_instance

theorem next_eq : next limit bound inner = inner.next limit bound := by
  have expressions (power : BindingPower) : nested limit (chain limit bound inner power) =
      Parser.expression limit bound inner power :=
    nested_eq fun _ within => chain_eq limit bound inner power within
  rw [next, Productions.next, conditional_eq, funext expressions]

end Productions

/-- Productions that check the depth are the productions. -/
theorem upTo_eq (limit n : Nat) : upTo limit n = Productions.upTo limit n := by
  induction n with
  | zero => rfl
  | succ n ih => rw [upTo, ih, next_eq, Productions.upTo]

theorem program_eq (limit : Nat) : program limit = Parser.program limit := by
  simp only [program, Parser.program, upTo_eq]

end Checked

/-! ## Every way to end -/

/-- The run ends with a result or a syntax error, at the depth of `s`. -/
inductive Restored (s : State) : EStateM.Result (Stop SyntaxError) State α → Prop
  | ok {a : α} {t : State} : t.depth = s.depth → Restored s (.ok a t)
  | error {e : SyntaxError} {t : State} : t.depth = s.depth → Restored s (.error (.error e) t)

theorem restored_of_steady {p : Parser α} [Steady p] {s : State}
    (finishes : ∀ t, p s ≠ .error .exhausted t) : Restored s (p s) := by
  cases run : p s with
  | ok a t => exact .ok (Keeps.ok (R := State.SameDepth) run)
  | error stop t =>
    cases stop with
    | error e => exact .error (Keeps.error (R := State.SameDepth) run)
    | exhausted =>
      -- the bound on the recursion is no way to end
      exact absurd run (finishes t)

/-- The production ends at the depth of `s`, and no check of the depth fails while it runs. -/
def Restores (s : State) (p checked : Parser α) : Prop := Restored s (p s) ∧ checked s = p s

theorem State.Within.restores {n : Nat} {p q : Parser α} [Steady p]
    [finishes : Finishes (State.Within n) p] {s : State} (within : s.Within n) (same : q s = p s) :
    Restores s p q :=
  ⟨restored_of_steady (finishes.ne_exhausted s within), same⟩

/-! ## The loop over operators -/

section Operators

variable {limit bound : Nat} {inner : Productions} {power : BindingPower}

/-- The loop stops before a token that does not bind, fails where no level is left, and otherwise
goes on one level deeper. -/
theorem operators_cases (k : Nat) (left : Expression) (s : State) :
    ¬ power < .ofKind s.peek.kind ∧
        operators limit bound inner power (k + 1) left s = .ok left s ∨
      power < .ofKind s.peek.kind ∧ limit ≤ s.depth ∧
        operators limit bound inner power (k + 1) left s =
          .error (.error ⟨s.current.pos, .nestingTooDeep limit⟩) s ∨
      power < .ofKind s.peek.kind ∧ s.depth < limit ∧
        operators limit bound inner power (k + 1) left s =
          (extend bound inner left >>= operators limit bound inner power k)
            { s with depth := s.depth + 1 }.advance := by
  by_cases binds : power < .ofKind s.peek.kind
  · have branch : operators limit bound inner power (k + 1) left s =
        (enter limit >>= fun _ => advance >>= fun _ =>
          extend bound inner left >>= operators limit bound inner power k) s := by
      rw [operators, peek_bind, if_pos binds]
    rcases enter_cases limit s with ⟨room, entered⟩ | ⟨full, refused⟩
    · refine .inr (.inr ⟨binds, room, ?_⟩)
      rw [branch, bind_of_ok entered, advance_bind]
    · refine .inr (.inl ⟨binds, full, ?_⟩)
      rw [branch, bind_of_error refused]
  · exact .inl ⟨binds, operators_of_not_lt binds⟩

/-- A run from `s` ends at least as deep as `s` and within the limit. -/
def Rises (limit : Nat) (s : State) (r : EStateM.Result (Stop SyntaxError) State α) : Prop :=
  s.depth ≤ (final r).depth ∧ (final r).depth ≤ limit

variable (bound inner) [inner.Steady]

/-- What extends the expression leaves the depth as it was, so what follows decides. -/
theorem rises_extend_bind {f : Expression → Parser Expression} (left : Expression)
    (rest : ∀ wider (s : State), s.depth ≤ limit → Rises limit s (f wider s)) {s : State}
    (within : s.depth ≤ limit) : Rises limit s ((extend bound inner left >>= f) s) := by
  cases run : extend bound inner left s with
  | ok wider t =>
    have kept : t.depth = s.depth := Keeps.ok (R := State.SameDepth) run
    rw [bind_of_ok run, Rises, ← kept]
    exact rest wider t (kept ▸ within)
  | error stop t =>
    have kept : t.depth = s.depth := Keeps.error (R := State.SameDepth) run
    rw [bind_of_error run]
    exact ⟨Nat.le_of_eq kept.symm, kept ▸ within⟩

/-- Each round adds one level, below the limit. -/
theorem rises_operators (k : Nat) : ∀ (left : Expression) (s : State), s.depth ≤ limit →
    Rises limit s (operators limit bound inner power k left s) := by
  induction k with
  | zero => exact fun left s within => ⟨Nat.le_refl _, within⟩
  | succ k ih =>
    intro left s within
    rcases operators_cases k left s with ⟨-, run⟩ | ⟨-, -, run⟩ | ⟨-, room, run⟩
    · rw [run]
      exact ⟨Nat.le_refl _, within⟩
    · rw [run]
      exact ⟨Nat.le_refl _, within⟩
    · -- the rest of the loop rises from one level deeper, which is still within the limit
      obtain ⟨deeper, below⟩ := rises_extend_bind bound inner left ih
        (show { s with depth := s.depth + 1 }.advance.depth ≤ limit from room)
      rw [run]
      exact ⟨Nat.le_trans (Nat.le_succ s.depth) deeper, below⟩

/-- The loop ends deeper than it started exactly if there was an operator and a level for it. -/
theorem lt_depth_operators_iff (k : Nat) (left : Expression) (s : State) :
    s.depth < (final (operators limit bound inner power (k + 1) left s)).depth ↔
      power < .ofKind s.peek.kind ∧ s.depth < limit := by
  rcases operators_cases k left s with ⟨stops, run⟩ | ⟨-, full, run⟩ | ⟨binds, room, run⟩
  · rw [run]
    exact ⟨fun less => absurd less (Nat.lt_irrefl _), fun entered => absurd entered.1 stops⟩
  · rw [run]
    exact ⟨fun less => absurd less (Nat.lt_irrefl _),
      fun entered => absurd entered.2 (Nat.not_lt.2 full)⟩
  · obtain ⟨deeper, -⟩ := rises_extend_bind bound inner left (rises_operators bound inner k)
      (show { s with depth := s.depth + 1 }.advance.depth ≤ limit from room)
    rw [run]
    exact ⟨fun _ => ⟨binds, room⟩, fun _ => deeper⟩

end Operators

/-! ## All productions -/

/-- How each production ends at `s`, with fewer than `n` tokens left.  The loop over operators alone
may end deeper than it started. -/
structure State.Balanced (limit n : Nat) (s : State) : Prop where
  recovered : Restores s (recovering (Parser.statement (n + 1) (.upTo limit n)))
    (recovering (Parser.statement (n + 1) (Checked.upTo limit n)))
  statement : Restores s (Parser.statement (n + 1) (.upTo limit n))
    (Parser.statement (n + 1) (Checked.upTo limit n))
  block : Restores s (Productions.upTo limit (n + 1)).block (Checked.upTo limit (n + 1)).block
  expression : ∀ power, Restores s ((Productions.upTo limit (n + 1)).expression power)
    ((Checked.upTo limit (n + 1)).expression power)
  chain : ∀ power, Restores s (Parser.chain limit (n + 1) (.upTo limit n) power)
    (Checked.chain limit (n + 1) (Checked.upTo limit n) power)
  operand : Restores s (Parser.operand limit (n + 1) (.upTo limit n))
    (Checked.operand limit (n + 1) (Checked.upTo limit n))
  conditional : ∀ token, Restores s ((Productions.upTo limit (n + 1)).conditional token)
    ((Checked.upTo limit (n + 1)).conditional token)
  object : ∀ token, Restores s (Parser.object (n + 1) (.upTo limit n) token)
    (Parser.object (n + 1) (Checked.upTo limit n) token)
  extend : ∀ left, Restores s (Parser.extend (n + 1) (.upTo limit n) left)
    (Parser.extend (n + 1) (Checked.upTo limit n) left)
  arguments : Restores s (Parser.arguments (n + 1) (.upTo limit n))
    (Parser.arguments (n + 1) (Checked.upTo limit n))
  operators : ∀ power left,
    let run := Parser.operators limit (n + 1) (.upTo limit n) power (n + 1) left s
    (∀ t, run ≠ .error .exhausted t) ∧ Rises limit s run ∧
      (s.depth < (final run).depth ↔ power < .ofKind s.peek.kind ∧ s.depth < limit) ∧
      Checked.operators limit (n + 1) (Checked.upTo limit n) power (n + 1) left s = run

instance (limit n : Nat) (power : BindingPower) :
    Finishes (State.Room n) (chain limit (n + 1) (.upTo limit n) power) := by
  rw [chain]
  infer_instance

theorem State.balanced {limit n : Nat} {s : State} (within : s.Within n) (depth : s.depth ≤ limit) :
    s.Balanced limit n := by
  -- productions of the level itself have one more than the `n` of those further in
  have wider : s.Within (n + 1) := ⟨within.1, Nat.lt_succ_of_lt within.2⟩
  constructor
  case recovered | statement | object | extend | arguments =>
    intros
    exact within.restores (by rw [Checked.upTo_eq])
  case block => exact wider.restores (by rw [Checked.upTo_eq])
  case expression | conditional =>
    intro _
    exact wider.restores (by rw [Checked.upTo_eq])
  case chain =>
    intro power
    refine within.restores ?_
    rw [Checked.upTo_eq]
    exact Checked.chain_eq limit (n + 1) (.upTo limit n) power depth
  case operand => exact within.restores (by rw [Checked.upTo_eq, Checked.operand_eq])
  case operators =>
    intro power left run
    refine ⟨?_, rises_operators _ _ (n + 1) left s depth,
      lt_depth_operators_iff _ _ n left s, ?_⟩
    · have finishes : Finishes (State.Within n)
          (Parser.operators limit (n + 1) (.upTo limit n) power (n + 1) left) := inferInstance
      exact finishes.ne_exhausted s within
    · rw [Checked.upTo_eq, Checked.operators_eq]

/-! ## Programs -/

/-- The states between the statements of a program that starts at `start`: the start itself, and
what one more statement, well-formed or not, leads to. -/
inductive BetweenStatements (limit : Nat) (start : State) : State → Prop
  | start : BetweenStatements limit start start
  | next {s t : State} {found : List Statement} : BetweenStatements limit start s →
      programItem (start.tokens.length + 2) (.upTo limit (start.tokens.length + 1)) s =
        .ok (some found) t →
      BetweenStatements limit start t

/-- Reading a program goes from the start of one statement to the next. -/
theorem BetweenStatements.collect {limit : Nat} {start : State} (k : Nat) :
    ∀ {s t : State} {p : Program}, BetweenStatements limit start s →
      Bounded.collect (programItem (start.tokens.length + 2)
        (.upTo limit (start.tokens.length + 1))) k s = .ok p t →
      BetweenStatements limit start t := by
  induction k with
  | zero =>
    intro s t p _ run
    cases run
  | succ k ih =>
    intro s t p here run
    obtain ⟨found, u, first, rest⟩ := bind_eq_ok_iff.1 run
    cases found with
    | none =>
      obtain ⟨rfl, -⟩ := programItem_eq_none first
      cases rest
      exact here
    | some found =>
      obtain ⟨more, v, again, last⟩ := bind_eq_ok_iff.1 rest
      cases last
      exact ih (here.next first) again

/-- Between statements the depth is that of the start. -/
theorem BetweenStatements.depth_eq {limit : Nat} {start t : State}
    (h : BetweenStatements limit start t) : t.depth = start.depth := by
  induction h with
  | start => rfl
  | next _ round ih => exact (Keeps.ok (R := State.SameDepth) round).trans ih

end Parser

open Guion.Parser

/-- **The depth counter is balanced.**  From every state with its depth within the limit, each
production returns at the depth of the state, on success and on every failure; the loop over
operators alone may end deeper.  The productions that stop as soon as the depth would exceed the
limit, or would go below zero, do the same, and so does reading a program with them.  Between the
statements of a program, malformed ones as well, the depth is zero, up to its end. -/
theorem depth_balanced (limit : Nat) :
    (∀ (s : State) (n : Nat), s.finish.kind = .endOfInput → s.tokens.length < n →
        s.depth ≤ limit → s.Balanced limit n) ∧
      ∀ source : String,
        let start := State.ofScanned (scan source)
        Checked.program limit start = program limit start ∧
          (∃ p t, program limit start = .ok p t ∧ BetweenStatements limit start t) ∧
          ∀ t, BetweenStatements limit start t → t.depth = 0 := by
  refine ⟨fun s n finish fewer depth => State.balanced ⟨finish, fewer⟩ depth, fun source => ?_⟩
  intro start
  obtain ⟨p, t, run⟩ := program_eq_ok limit (State.sane_ofScanned source).finish
  refine ⟨by rw [Checked.program_eq], ⟨p, t, run, ?_⟩, fun t h => h.depth_eq⟩
  exact BetweenStatements.start.collect _ run

/-- One level too many, for which there is an error, and the statement after it. -/
theorem depth_balanced_too_deep :
    let start := State.ofScanned (scan "((a; b")
    start.finish.kind = .endOfInput ∧ start.tokens.length < 6 ∧ start.depth ≤ 1 ∧
      start.Balanced 1 6 ∧
      ∃ t, BetweenStatements 1 start t ∧ t.tokens.map Token.text = ["b"] ∧
        t.errors.toList.map SyntaxError.fault = [.nestingTooDeep 1] ∧ t.depth = 0 := by
  intro start
  let finish : Token := ⟨.endOfInput, "", ⟨6, 1, 7⟩⟩
  let name : Token := ⟨.identifier, "b", ⟨5, 1, 6⟩⟩
  have scanned : scan "((a; b" = ⟨[⟨.leftParen, "(", ⟨0, 1, 1⟩⟩, ⟨.leftParen, "(", ⟨1, 1, 2⟩⟩,
      ⟨.identifier, "a", ⟨2, 1, 3⟩⟩, ⟨.semicolon, ";", ⟨3, 1, 4⟩⟩, name], finish⟩ := by
    decide +kernel
  have tokens : start.tokens.length = 5 := congrArg (·.tokens.length) scanned
  have round : programItem 7 (.upTo 1 6) start = .ok (some [])
      ⟨[name], finish, 0, #[⟨⟨1, 1, 2⟩, .nestingTooDeep 1⟩]⟩ := by
    rw [show start = State.ofScanned _ from congrArg State.ofScanned scanned]
    rfl
  obtain ⟨productions, programs⟩ := depth_balanced 1
  have ended : start.finish.kind = .endOfInput := kind_finish_scan _
  have second : BetweenStatements 1 start _ :=
    .next .start (by rw [tokens]; exact round)
  exact ⟨ended, by omega, Nat.zero_le 1, productions start 6 ended (by omega) (Nat.zero_le 1),
    _, second, rfl, rfl, (programs "((a; b").2.2 _ second⟩

end Guion
