import Guion.Proofs.Parser.Boundary

/-!
# Recovery stays inside its block

A parser inside `b` blocks has at least `b` braces open before it, and where it fails it stands
where recovery stays inside the blocks (`Leads`): so no statement goes on past the boundary.

There is one exception.  An operand that is missing right before a closing brace is reported with
the parser standing on that brace (`Stuck`), and recovery skips it.

There is one lemma for each production, given that those one level further in behave the same.
-/

set_option autoImplicit false

namespace Guion.Parser.Boundary

open Bounded

variable {α β : Type} {B : Boundary}

/-! ## Runs -/

variable (B) in
/-- How a run inside `b` blocks may end: with `Q`, or where recovery stays inside them, unless an
operand was due where a brace closes. -/
def Ends (b : Nat) (Q : α → State → Prop) : EStateM.Result (Stop SyntaxError) State α → Prop
  | .ok a t => B.Tainted t ∨ Q a t
  | .error (.error e) t => B.Tainted t ∨ B.Stuck e ∨ B.Found e ∧ B.Done b t
  | .error .exhausted _ => True

variable (B) in
/-- Inside `b` blocks, `p` leads from `P` to `Q`. -/
def Leads (b : Nat) (P : State → Prop) (p : Parser α) (Q : α → State → Prop) : Prop :=
  ∀ s, P s → B.Ends b Q (p s)

theorem Tainted.onward {s t : State} (h : B.Tainted s) (ahead : s.Ahead t) : B.Tainted t := by
  obtain ⟨e, member, stuck⟩ := h
  exact ⟨e, ahead.errors.subset member, stuck⟩

theorem Tainted.ends {p : Parser α} [Onward p] {b : Nat} {Q : α → State → Prop} {s : State}
    (h : B.Tainted s) : B.Ends b Q (p s) := by
  cases run : p s with
  | ok a t => exact .inl (h.onward (Keeps.ok run))
  | error stop t =>
    cases stop with
    | error e => exact .inl (h.onward (Keeps.error run))
    | exhausted => trivial

section Steps

variable {b c : Nat} {P : State → Prop} {p : Parser α} {Q : α → State → Prop}

theorem Leads.bind {f : α → Parser β} [∀ a, Onward (f a)] {R : β → State → Prop}
    (first : B.Leads b P p Q) (rest : ∀ a, B.Leads b (Q a) (f a) R) :
    B.Leads b P (p >>= f) R := by
  intro s hs
  have ends := first s hs
  cases run : p s with
  | ok a t =>
    rw [run] at ends
    rw [bind_of_ok run]
    rcases ends with tainted | reached
    · exact tainted.ends
    · exact rest a t reached
  | error stop t =>
    rw [run] at ends
    rw [bind_of_error run]
    cases stop <;> exact ends

theorem Leads.post {Q' : α → State → Prop} (h : B.Leads b P p Q)
    (post : ∀ a t, Q a t → Q' a t) : B.Leads b P p Q' := by
  intro s hs
  have ends := h s hs
  cases run : p s with
  | ok a t =>
    rw [run] at ends
    exact ends.imp id (post a t)
  | error stop t =>
    rw [run] at ends
    cases stop <;> exact ends

theorem Leads.pre {P' : State → Prop} (h : B.Leads b P p Q) (pre : ∀ s, P' s → P s) :
    B.Leads b P' p Q :=
  fun s hs => h s (pre s hs)

/-- Where recovery stays inside more blocks, it stays inside fewer. -/
theorem Leads.lower (h : B.Leads c P p Q) (le : b ≤ c) : B.Leads b P p Q := by
  intro s hs
  have ends := h s hs
  cases run : p s with
  | ok a t =>
    rw [run] at ends
    exact ends
  | error stop t =>
    rw [run] at ends
    cases stop with
    | error e => exact ends.imp id (Or.imp id (And.imp id fun done => done.lower le))
    | exhausted => trivial

theorem leads_pure {a : α} (h : ∀ s, P s → Q a s) : B.Leads b P (pure a) Q :=
  fun s hs => .inr (h s hs)

theorem leads_exhausted : B.Leads b P exhausted Q := fun _ _ => trivial

theorem Leads.ite {q : Parser α} {condition : Prop} [Decidable condition]
    (yes : condition → B.Leads b P p Q) (no : ¬ condition → B.Leads b P q Q) :
    B.Leads b P (if condition then p else q) Q := by
  split
  · exact yes ‹_›
  · exact no ‹_›

theorem Leads.map {f : α → β} {R : β → State → Prop} (h : B.Leads b P p Q)
    (post : ∀ a t, Q a t → R (f a) t) : B.Leads b P (f <$> p) R := by
  rw [map_eq_bind]
  exact h.bind fun a => leads_pure (post a)

theorem leads_current_bind {f : Token → Parser α}
    (rest : ∀ token, B.Leads b (fun s => P s ∧ s.current = token) (f token) Q) :
    B.Leads b P (current >>= f) Q :=
  fun s hs => rest s.current s ⟨hs, rfl⟩

theorem leads_peek_bind {f : Token → Parser α}
    (rest : ∀ token, B.Leads b (fun s => P s ∧ s.peek = token) (f token) Q) :
    B.Leads b P (peek >>= f) Q :=
  fun s hs => rest s.peek s ⟨hs, rfl⟩

/-- The current token is one up to the boundary. -/
theorem leads_current_mem {f : Token → Parser α}
    (rest : ∀ token ∈ B.front ++ [B.semicolon], B.Leads b (B.Safe b) (f token) Q) :
    B.Leads b (B.Safe b) (current >>= f) Q :=
  fun s safe => rest s.current safe.within.current_mem s safe

/-- Past a plain token the parser is safe where it was. -/
theorem leads_advance {token : Token} (plain : Plain token.kind = true) :
    B.Leads b (fun s => B.Safe b s ∧ s.peek = token) advance fun _ => B.Safe b := by
  rintro s ⟨safe, rfl⟩
  exact .inr (safe.advance.of_plain plain)

theorem plain_of_wantsOperand {kind : Token.Kind} (wants : kind.wantsOperand = true) :
    Plain kind = true := by
  cases kind with
  | leftCurly | rightCurly | semicolon => cases wants
  | _ => rfl

theorem leads_advance_wants {token : Token} (wants : token.kind.wantsOperand = true) :
    B.Leads b (fun s => B.Safe b s ∧ s.peek = token) advance fun _ => B.Wants b := by
  rintro s ⟨safe, rfl⟩
  exact .inr ((safe.advance.of_plain (plain_of_wantsOperand wants)).wants wants)

theorem leads_failAt {pos : Position} {fault : SyntaxError.Fault}
    (h : ∀ s, P s → B.Found ⟨pos, fault⟩ ∧ B.Done b s) : B.Leads b P (failAt pos fault) Q :=
  fun s hs => .inr (.inr (h s hs))

theorem leads_failHere {fault : SyntaxError.Fault} :
    B.Leads b (B.Safe b) (failHere fault) Q :=
  fun s safe => .inr (.inr ⟨⟨s.current, safe.within.current_mem, rfl⟩, safe.done (Nat.le_refl b)⟩)

/-- A token that was expected is reached, or the parser has not moved. -/
theorem leads_expect (le : b ≤ c) (kind : Token.Kind) :
    B.Leads b (B.Between b c) (expect kind) fun _ t => B.Within c t ∧ t.current.kind = kind := by
  refine leads_peek_bind fun token => Leads.ite (fun found => ?_) fun _ => ?_
  · rintro s ⟨between, rfl⟩
    exact .inr ⟨between.advance, found⟩
  · refine leads_failAt ?_
    rintro s ⟨between, rfl⟩
    exact ⟨⟨s.peek, between.advance.current_mem, rfl⟩, between.done le⟩

theorem leads_expect_plain (le : b ≤ c) {kind : Token.Kind} (plain : Plain kind = true) :
    B.Leads b (B.Between b c) (expect kind) fun _ => B.Safe c :=
  (leads_expect le kind).post fun _ _ h => h.1.of_plain (h.2 ▸ plain)

theorem leads_expect_wants {kind : Token.Kind} (wants : kind.wantsOperand = true) :
    B.Leads b (B.Safe b) (expect kind) fun _ => B.Wants b :=
  (leads_expect (Nat.le_refl b) kind).post fun _ _ h =>
    (h.1.of_plain (h.2 ▸ plain_of_wantsOperand wants)).wants (h.2 ▸ wants)

theorem leads_expect_opening :
    B.Leads b (B.Safe b) (expect .leftCurly) fun _ => B.Between b (b + 1) :=
  (leads_expect (Nat.le_refl b) _).post fun _ _ h => h.1.of_opening h.2

theorem leads_expect_closing :
    B.Leads b (B.Between b (b + 1)) (expect .rightCurly) fun _ => B.Safe b :=
  (leads_expect (Nat.le_succ b) _).post fun _ _ h => h.1.of_closing h.2

theorem leads_expectIdentifier (le : b ≤ c) :
    B.Leads b (B.Between b c) expectIdentifier fun name t =>
      B.Safe c t ∧ name.token ∈ B.front ++ [B.semicolon] := by
  refine (leads_expect_plain le rfl).bind fun _ => leads_current_bind fun token => leads_pure ?_
  rintro s ⟨safe, rfl⟩
  exact ⟨safe, safe.within.current_mem⟩

theorem leads_skipSemicolon : B.Leads b (B.Safe b) skipSemicolon fun _ => B.Done b := by
  refine leads_peek_bind fun token => Leads.ite (fun found => ?_) fun _ => ?_
  · rintro s ⟨safe, rfl⟩
    exact .inr (safe.advance.of_semicolon found)
  · exact leads_pure fun s h => h.1.done (Nat.le_refl b)

/-- Entering a level keeps what does not depend on the depth. -/
theorem leads_enter (limit : Nat) (stops : ∀ s, P s → B.Stops b s)
    (kept : ∀ (s : State) depth, P s → P { s with depth }) :
    B.Leads b P (enter limit) fun _ => P := by
  intro s hs
  rcases enter_cases limit s with ⟨-, entered⟩ | ⟨-, refused⟩
  · rw [entered]
    exact .inr (kept s _ hs)
  · rw [refused]
    exact .inr (stops s hs _ rfl)

/-- The depth after a run does not matter to how it ends. -/
theorem Ends.ensuring (after : State → State) {s : State}
    (same : ∀ t, (after t).tokens = t.tokens ∧ (after t).errors = t.errors)
    (h : B.Ends b (fun _ => B.Safe b) (p s)) :
    B.Ends b (fun _ => B.Safe b) (ensuring after p s) := by
  have tainted (t : State) (old : B.Tainted t) : B.Tainted (after t) := by
    rwa [Tainted, (same t).2]
  have clear (t : State) (old : B.Clear t) : B.Clear (after t) := by rwa [Clear, (same t).2]
  rw [Bounded.ensuring]
  cases run : p s with
  | ok a t =>
    rw [run] at h
    refine h.imp (tainted t) fun safe => ⟨?_, ?_, clear t safe.errors⟩
    · rw [(same t).1]
      exact safe.here
    · rw [State.ahead, (same t).1]
      exact safe.past
  | error stop t =>
    rw [run] at h
    cases stop with
    | error e =>
      refine h.imp (tainted t) (Or.imp id (And.imp id fun done => ⟨?_, clear t done.errors⟩))
      rw [(same t).1]
      exact done.stands
    | exhausted => trivial

theorem Leads.nested {limit : Nat} [Onward p] (stops : ∀ s, P s → B.Stops b s)
    (kept : ∀ (s : State) depth, P s → P { s with depth })
    (h : B.Leads b P p fun _ => B.Safe b) : B.Leads b P (nested limit p) fun _ => B.Safe b := by
  have := onward_ensuring (p := p) State.leave fun t => t.ahead_of_depth _
  exact (leads_enter limit stops kept).bind fun _ s hs =>
    Ends.ensuring State.leave (fun _ => ⟨rfl, rfl⟩) (h s hs)

theorem Leads.keepingDepth (h : B.Leads b P p fun _ => B.Safe b) :
    B.Leads b P (keepingDepth p) fun _ => B.Safe b :=
  fun s hs => Ends.ensuring (fun t => { t with depth := s.depth }) (fun _ => ⟨rfl, rfl⟩) (h s hs)

/-- A malformed statement is skipped, and the parser stays inside its blocks. -/
theorem Leads.recovering {p : Parser (Option α)} {A : Option α → Prop}
    (h : B.Leads b P p fun found t => B.Done b t ∧ A found) (skipped : A none) :
    B.Leads b P (recovering p) fun found t => B.Done b t ∧ A found := by
  intro s hs
  have ends := h s hs
  rw [Parser.recovering]
  cases run : p s with
  | ok a t =>
    rw [run] at ends
    exact ends
  | error stop t =>
    rw [run] at ends
    cases stop with
    | error e =>
      rcases ends with tainted | stuck | ⟨found, done⟩
      · exact .inl (tainted.onward (t.ahead_recover e))
      · exact .inl ⟨e, by simp [State.recover], stuck⟩
      · exact .inr ⟨done.recover found, skipped⟩
    | exhausted => trivial

/-- What a round leads to: on to the next one, or out of the repetition. -/
def Goes (P Q : State → Prop) : Option (List α) → State → Prop
  | none, t => Q t
  | some _, t => P t

theorem Leads.collect {round : Parser (Option (List α))} [Onward round] {R : State → Prop}
    (h : B.Leads b P round (Goes P R)) (n : Nat) :
    B.Leads b P (collect round n) fun _ => R := by
  induction n with
  | zero => exact leads_exhausted
  | succ n ih =>
    have rounds := keeps_round State.Ahead round n
    refine h.bind fun found => ?_
    cases found with
    | none => exact leads_pure fun _ hs => hs
    | some found => exact ih.bind fun _ => leads_pure fun _ hs => hs

end Steps

/-! ## Productions -/

variable (B) in
/-- The productions one level further in stay inside their blocks. -/
class Inner (inner : Productions) : Prop where
  expression : ∀ b power, B.Leads b (B.Starting b) (inner.expression power) fun _ => B.Safe b
  block : ∀ b, B.Leads b (B.Between b (b + 1)) inner.block fun _ => B.Safe b
  conditional : ∀ b token, B.Leads b (B.Safe b) (inner.conditional token) fun _ => B.Safe b

section Productions

variable (limit bound : Nat) (inner : Productions) {b c : Nat}

theorem Leads.commaItem {item : Parser α} [Onward item]
    (h : B.Leads b (B.Wants b) item fun _ => B.Safe b) :
    B.Leads b (B.Safe b) (commaItem item) (Goes (B.Safe b) (B.Safe b)) := by
  refine leads_peek_bind fun token => Leads.ite (fun comma => ?_) fun _ => ?_
  · exact (leads_advance_wants (by rw [comma]; rfl)).bind fun _ => h.bind fun _ =>
      leads_pure fun _ safe => safe
  · exact leads_pure fun _ h => h.1

theorem Leads.commaSeparated {item : Parser α} [Onward item]
    (h : B.Leads b (B.Wants b) item fun _ => B.Safe b) :
    B.Leads b (B.Safe b) (commaSeparated bound item) fun _ => B.Safe b :=
  h.commaItem.collect bound

theorem leads_name : B.Leads b (B.Safe b) expectIdentifier fun _ => B.Safe b :=
  (leads_expectIdentifier (Nat.le_refl b)).post fun _ _ h => h.1

theorem leads_parameters : B.Leads b (B.Safe b) (parameters bound) fun _ => B.Safe b := by
  refine leads_peek_bind fun token => Leads.ite (fun closes => ?_) fun _ => ?_
  · exact (leads_advance (by rw [closes]; rfl)).bind fun _ => leads_pure fun _ safe => safe
  · exact (leads_name.pre fun _ h => h.1).bind fun _ =>
      ((leads_name.pre fun _ h => h.1).commaSeparated bound).bind fun _ =>
        (leads_expect_plain (Nat.le_refl b) rfl).bind fun _ => leads_pure fun _ safe => safe

/-- A token that binds is neither a brace nor a semicolon. -/
theorem plain_of_lt {power : BindingPower} {kind : Token.Kind} (binds : power < .ofKind kind) :
    Plain kind = true := by
  cases kind with
  | leftCurly | rightCurly | semicolon => exact absurd binds (Nat.not_lt_zero _)
  | _ => rfl

variable [deeper : B.Inner inner]

theorem leads_nextExpression (power : BindingPower) :
    B.Leads b (B.Wants b) (nextExpression inner power) fun _ => B.Safe b :=
  fun s wants => deeper.expression b power s.advance wants.advance

theorem leads_unary (token : Token) (op : UnaryOp) :
    B.Leads b (B.Wants b) (unary inner token op) fun _ => B.Safe b :=
  (leads_nextExpression inner .unary).bind fun _ => leads_pure fun _ safe => safe

theorem leads_grouped : B.Leads b (B.Wants b) (grouped inner) fun _ => B.Safe b :=
  (leads_nextExpression inner .lowest).bind fun _ =>
    (leads_expect_plain (Nat.le_refl b) rfl).bind fun _ => leads_pure fun _ safe => safe

theorem leads_assignment (token : Token) (left : Expression) :
    B.Leads b (B.Wants b) (assignment inner token left) fun _ => B.Safe b := by
  cases left with
  | identifier target =>
    exact (leads_nextExpression inner .lowest).bind fun _ => leads_pure fun _ safe => safe
  | _ => exact leads_failHere.pre fun _ h => h.1

variable [inner.Onward]

theorem leads_functionRest : B.Leads b (B.Safe b) (functionRest bound inner) fun _ => B.Safe b :=
  (leads_expect_plain (Nat.le_refl b) rfl).bind fun _ => (leads_parameters bound).bind fun _ =>
    leads_expect_opening.bind fun _ => (deeper.block b).bind fun _ => leads_pure fun _ safe => safe

theorem leads_alternative : B.Leads b (B.Safe b) (alternative limit inner) fun _ => B.Safe b := by
  refine leads_peek_bind fun token => ?_
  obtain ⟨kind, text, pos⟩ := token
  cases kind with
  | sino =>
    exact (leads_advance rfl).bind fun _ => leads_expect_opening.bind fun _ =>
      (deeper.block b).bind fun _ => leads_pure fun _ safe => safe
  | sinosi =>
    refine (leads_advance rfl).bind fun _ => leads_current_bind fun token => ?_
    have chained :
        B.Leads b (B.Safe b) (nested limit (inner.conditional token)) fun _ => B.Safe b :=
      (deeper.conditional b token).nested (fun _ => Between.stops) fun _ _ safe =>
        ⟨safe.here, safe.past, safe.errors⟩
    exact (chained.pre fun _ h => h.1).bind fun _ => leads_pure fun _ safe => safe
  | _ => exact leads_pure fun _ h => h.1

set_option synthInstance.maxSize 400 in
theorem leads_conditional (token : Token) :
    B.Leads b (B.Safe b) (conditional limit inner token) fun _ => B.Safe b :=
  (leads_expect_wants rfl).bind fun _ =>
    (leads_nextExpression inner .lowest).bind fun _ =>
      (leads_expect_plain (Nat.le_refl b) rfl).bind fun _ => leads_expect_opening.bind fun _ =>
        (deeper.block b).bind fun _ => (leads_alternative limit inner).bind fun _ =>
          leads_pure fun _ safe => safe

/-- The first property follows the opening brace, so there may be more open after the current token
than before it. -/
theorem leads_property (le : b ≤ c) :
    B.Leads b (B.Between b c) (property inner) fun _ => B.Safe c := by
  refine ((leads_expectIdentifier le).post fun _ _ h => h.1).bind fun key => ?_
  refine Leads.lower (leads_peek_bind fun token => Leads.ite (fun colon => ?_) fun _ => ?_) le
  · exact (leads_advance_wants (by rw [colon]; rfl)).bind fun _ =>
      (leads_nextExpression inner .lowest).bind fun _ => leads_pure fun _ safe => safe
  · exact leads_pure fun _ h => h.1

theorem leads_commaProperty :
    B.Leads b (B.Safe b) (commaProperty inner) (Goes (B.Safe b) (B.Safe b)) := by
  refine leads_peek_bind fun token => Leads.ite (fun comma => ?_) fun _ => ?_
  · refine (leads_advance (by rw [comma]; rfl)).bind fun _ => leads_peek_bind fun token =>
      Leads.ite (fun _ => leads_pure fun _ h => h.1) fun _ => ?_
    exact ((leads_property inner (Nat.le_refl b)).pre fun _ h => h.1).bind fun _ =>
      leads_pure fun _ safe => safe
  · exact leads_pure fun _ h => h.1

theorem leads_properties :
    B.Leads b (B.Between b (b + 1)) (properties bound inner) fun _ => B.Between b (b + 1) := by
  refine leads_peek_bind fun token => Leads.ite (fun _ => leads_pure fun _ h => h.1) fun _ => ?_
  have more : B.Leads (b + 1) (B.Safe (b + 1)) (moreProperties bound inner)
      fun _ => B.Safe (b + 1) := (leads_commaProperty inner).collect bound
  exact ((leads_property inner (Nat.le_succ b)).pre fun _ h => h.1).bind fun _ =>
    (more.lower (Nat.le_succ b)).bind fun _ => leads_pure fun _ => Between.of_deeper

theorem leads_object (token : Token) :
    B.Leads b (B.Between b (b + 1)) (object bound inner token) fun _ => B.Safe b :=
  (leads_properties bound inner).bind fun _ => leads_expect_closing.bind fun _ =>
    leads_pure fun _ safe => safe

theorem leads_operand : B.Leads b (B.Starting b) (operand limit bound inner) fun _ => B.Safe b := by
  refine leads_current_bind fun token => ?_
  -- a token that is no brace and no semicolon is safe to stand on
  have plain {p : Parser Expression} (h : Plain token.kind = true)
      (leads : B.Leads b (B.Safe b) p fun _ => B.Safe b) :
      B.Leads b (fun s => B.Starting b s ∧ s.current = token) p fun _ => B.Safe b := by
    refine leads.pre ?_
    rintro s ⟨starting, rfl⟩
    exact starting.1.of_plain h
  have wanting {p : Parser Expression} (h : token.kind.wantsOperand = true)
      (leads : B.Leads b (B.Wants b) p fun _ => B.Safe b) :
      B.Leads b (fun s => B.Starting b s ∧ s.current = token) p fun _ => B.Safe b := by
    refine leads.pre ?_
    rintro s ⟨starting, rfl⟩
    exact (starting.1.of_plain (plain_of_wantsOperand h)).wants h
  have done {e : Expression} : B.Leads b (B.Safe b) (pure e) fun _ => B.Safe b :=
    leads_pure fun _ safe => safe
  obtain ⟨kind, text, pos⟩ := token
  cases kind with
  | identifier | verdadero | falso | string => exact plain rfl done
  | integer =>
    refine plain rfl ?_
    dsimp only
    split
    · exact done
    · exact leads_failHere
  | float =>
    refine plain rfl ?_
    dsimp only
    split
    · exact done
    · exact leads_failHere
  | bang => exact wanting rfl (leads_unary inner _ .not)
  | minus => exact wanting rfl (leads_unary inner _ .negate)
  | leftParen => exact wanting rfl (leads_grouped inner)
  | func =>
    exact plain rfl ((leads_functionRest bound inner).bind fun _ => leads_pure fun _ safe => safe)
  | si => exact plain rfl (leads_conditional limit inner _)
  | leftCurly =>
    refine (leads_object bound inner _).pre ?_
    rintro s ⟨starting, here⟩
    exact starting.1.of_opening (by rw [here])
  | illegal => exact plain rfl leads_failHere
  | _ => exact fun s h => .inr (h.1.stops _ rfl)

theorem leads_arguments : B.Leads b (B.Wants b) (arguments bound inner) fun _ => B.Safe b := by
  refine leads_peek_bind fun token => Leads.ite (fun closes => ?_) fun _ => ?_
  · exact ((leads_advance (by rw [closes]; rfl)).pre fun _ h => ⟨h.1.1, h.2⟩).bind fun _ =>
      leads_pure fun _ safe => safe
  · exact ((leads_nextExpression inner .lowest).pre fun _ h => h.1).bind fun _ =>
      ((leads_nextExpression inner .lowest).commaSeparated bound).bind fun _ =>
        (leads_expect_plain (Nat.le_refl b) rfl).bind fun _ => leads_pure fun _ safe => safe

theorem leads_extend (left : Expression) :
    B.Leads b (B.Safe b) (extend bound inner left) fun _ => B.Safe b := by
  refine leads_current_bind fun token => ?_
  have wanting {p : Parser Expression} (h : token.kind.wantsOperand = true)
      (leads : B.Leads b (B.Wants b) p fun _ => B.Safe b) :
      B.Leads b (fun s => B.Safe b s ∧ s.current = token) p fun _ => B.Safe b := by
    refine leads.pre ?_
    rintro s ⟨safe, rfl⟩
    exact safe.wants h
  obtain ⟨kind, text, pos⟩ := token
  cases kind with
  | assign => exact wanting rfl (leads_assignment inner _ left)
  | leftParen =>
    exact wanting rfl ((leads_arguments bound inner).bind fun _ => leads_pure fun _ safe => safe)
  | dot => exact (leads_name.pre fun _ h => h.1).bind fun _ => leads_pure fun _ safe => safe
  | leftBracket =>
    exact wanting rfl ((leads_nextExpression inner .lowest).bind fun _ =>
      (leads_expect_plain (Nat.le_refl b) rfl).bind fun _ => leads_pure fun _ safe => safe)
  | equal | notEqual | less | lessEqual | greater | greaterEqual | plus | minus | star | slash =>
    exact wanting rfl ((leads_nextExpression inner _).bind fun _ => leads_pure fun _ safe => safe)
  | _ => exact leads_pure fun _ h => h.1

theorem leads_operators (power : BindingPower) (n : Nat) : ∀ left,
    B.Leads b (B.Safe b) (operators limit bound inner power n left) fun _ => B.Safe b := by
  induction n with
  | zero => exact fun _ => leads_exhausted
  | succ n ih =>
    intro left
    refine leads_peek_bind fun token => Leads.ite (fun binds => ?_) fun _ => ?_
    · exact (leads_enter limit (fun _ h => h.1.stops) fun s _ h =>
        ⟨⟨h.1.here, h.1.past, h.1.errors⟩, h.2⟩).bind fun _ =>
          (leads_advance (plain_of_lt binds)).bind fun _ => (leads_extend bound inner left).bind ih
    · exact leads_pure fun _ h => h.1

theorem leads_expression (power : BindingPower) :
    B.Leads b (B.Starting b) (expression limit bound inner power) fun _ => B.Safe b :=
  Leads.nested (fun _ => Starting.stops) (fun _ _ h => ⟨⟨h.1.here, h.1.errors⟩, h.2⟩)
    ((leads_operand limit bound inner).bind fun left =>
      (leads_operators limit bound inner power bound left).keepingDepth)

/-! ## Statements -/

variable (B) in
/-- The statement starts before the boundary or at it. -/
def Starts (found : Statement) : Prop := found.token ∈ B.front ++ [B.semicolon]

theorem leads_declaration : B.Leads b (B.Safe b) (declaration inner) fun found t =>
    B.Done b t ∧ B.Starts found := by
  refine leads_current_mem fun token start => (leads_expectIdentifier (Nat.le_refl b)).bind
    fun name => leads_peek_bind fun next => Leads.ite ?_ ?_
  · intro assigned
    exact ((leads_advance_wants (by rw [assigned]; rfl)).pre fun _ h => ⟨h.1.1, h.2⟩).bind fun _ =>
      (leads_nextExpression inner .lowest).bind fun _ => leads_skipSemicolon.bind fun _ =>
        leads_pure fun _ done => ⟨done, start⟩
  · rintro - s ⟨⟨safe, named⟩, -⟩
    refine leads_skipSemicolon.bind (R := fun found t => B.Done b t ∧ B.Starts found)
      (fun _ => ?_) s safe
    -- the error stands at the name, which the parser has passed
    exact Leads.ite (fun _ => leads_failAt fun _ done => ⟨⟨name.token, named, rfl⟩, done⟩)
      fun _ => leads_pure fun _ done => ⟨done, start⟩

omit [inner.Onward] in
theorem leads_resultValue : B.Leads b (B.Safe b) (resultValue inner) fun _ => B.Safe b := by
  intro s safe
  by_cases ends : s.peek.kind = .semicolon ∨ s.peek.kind = .rightCurly ∨ s.peek.kind = .endOfInput
  · rw [resultValue_of_end ends]
    exact .inr safe
  · obtain ⟨not_semicolon, not_closing, not_end⟩ := by simpa only [not_or] using ends
    rw [resultValue_of_ne not_semicolon not_closing not_end]
    exact (leads_nextExpression inner .lowest).map (R := fun _ => B.Safe b) (fun _ _ safe => safe) s
      ⟨safe, fun closing => absurd closing not_closing⟩

omit [inner.Onward] in
theorem leads_result :
    B.Leads b (B.Safe b) (result inner) fun found t => B.Done b t ∧ B.Starts found :=
  leads_current_mem fun _ start => (leads_resultValue inner).bind fun _ =>
    leads_skipSemicolon.bind fun _ => leads_pure fun _ done => ⟨done, start⟩

theorem leads_function :
    B.Leads b (B.Safe b) (function bound inner) fun found t => B.Done b t ∧ B.Starts found :=
  leads_current_mem fun _ start => leads_name.bind fun _ => (leads_functionRest bound inner).bind
    fun _ => leads_skipSemicolon.bind fun _ => leads_pure fun _ done => ⟨done, start⟩

theorem leads_statement : B.Leads b (B.Begins b) (statement bound inner) fun found t =>
    B.Done b t ∧ ∀ st ∈ found, B.Starts st := by
  intro s begins
  have within := begins.1
  have some_starts {p : Parser Statement} (safe : B.Safe b s)
      (h : B.Leads b (B.Safe b) p fun found t => B.Done b t ∧ B.Starts found) :
      B.Ends b (fun found t => B.Done b t ∧ ∀ st ∈ found, B.Starts st) ((some <$> p) s) := by
    refine h.map (fun found t => And.imp id fun start => ?_) s safe
    rintro _ ⟨⟩
    exact start
  by_cases semicolon : s.current.kind = .semicolon
  · rw [statement_of_semicolon semicolon]
    exact .inr ⟨within.of_semicolon semicolon, by simp⟩
  by_cases declares : s.current.kind = .var ∨ s.current.kind = .constant
  · rw [statement_of_declaration declares]
    refine some_starts (within.of_plain ?_) (leads_declaration inner)
    rcases declares with kind | kind <;> rw [kind] <;> rfl
  by_cases returns : s.current.kind = .regresa
  · rw [statement_of_regresa returns]
    exact some_starts (within.of_plain (by rw [returns]; rfl)) (leads_result inner)
  by_cases named : s.current.kind = .func ∧ s.peek.kind = .identifier
  · rw [statement_of_func named.1 named.2]
    exact some_starts (within.of_plain (by rw [named.1]; rfl)) (leads_function bound inner)
  obtain ⟨not_var, not_constant⟩ := not_or.1 declares
  rw [statement_of_ne semicolon not_var not_constant returns named]
  refine (deeper.expression b .lowest).bind (fun _ => leads_skipSemicolon.bind fun _ =>
    leads_pure fun _ done => ⟨done, ?_⟩) s begins.starting
  rintro _ ⟨⟩
  exact within.current_mem

theorem leads_item : B.Leads b (B.Begins b) (item bound inner) fun found t =>
    B.After b t ∧ ∀ st ∈ found, B.Starts st := by
  refine ((leads_statement bound inner).recovering (by simp)).bind fun found => ?_
  rintro s ⟨done, starts⟩
  exact .inr ⟨done.advance, fun st member => starts st (Option.mem_toList.1 member)⟩

theorem leads_blockItem (token : Token) :
    B.Leads b (B.Within (b + 1)) (blockItem bound inner token)
      (Goes (B.Within (b + 1)) (B.Safe b)) := by
  intro s within
  by_cases closing : s.current.kind = .rightCurly
  · rw [blockItem_of_rightCurly token closing]
    exact .inr (within.of_closing closing)
  · rw [blockItem_of_ne token closing within.before_end]
    refine ((leads_item bound inner).lower (Nat.le_succ b)).map (fun found t h => ?_) s
      ⟨within, fun brace => absurd brace closing⟩
    rcases h.1 with inside | ⟨none, -⟩
    · exact inside
    · cases none

theorem leads_block : B.Leads b (B.Between b (b + 1)) (block bound inner) fun _ => B.Safe b := by
  intro s between
  rw [block, current_bind, advance_bind]
  exact ((leads_blockItem bound inner s.current).collect bound).bind (R := fun _ => B.Safe b)
    (fun _ => leads_pure fun _ safe => safe) s.advance between.advance

end Productions

instance (limit n : Nat) : B.Inner (Productions.upTo limit n) := by
  induction n with
  | zero => exact ⟨fun _ _ => leads_exhausted, fun _ => leads_exhausted, fun _ _ => leads_exhausted⟩
  | succ n ih =>
    exact ⟨fun _ => leads_expression limit (n + 1) _, fun _ => leads_block (n + 1) _,
      fun _ => leads_conditional limit _⟩

end Guion.Parser.Boundary
