import Guion.Proofs.Parser.Provenance
import Guion.Proofs.Parser.Separation
import Mathlib.Data.List.Forall2
import Mathlib.Data.List.SplitBy

/-!
# One mistake, one error

Without braces, a text is read segment by segment, where a segment goes up to a semicolon or to the
end of input.  Each segment is read as some statements and at most one error after them, which
stands at a token of the segment (`one_error_per_segment`).

A malformed statement records its error once, since only blocks recover from errors on the way, and
the tokens skipped after it are the rest of its segment.  The segments before the last one are read
as on their own by what is known about semicolons.
-/

set_option autoImplicit false

namespace Guion

open scoped List

/-- The tokens up to each semicolon, and those after the last one. -/
def segments (tokens : List Token) : List (List Token) :=
  tokens.splitBy fun t _ => t.kind ≠ .semicolon

/-- What a segment is read as: statements, and the error of a malformed one after them. -/
structure Reading where
  statements : List Statement
  error : Option SyntaxError

/-- The statements start at tokens of the segment, one after the other.  If there is an error, they
start before the malformed statement, and the error stands there or further on in the segment. -/
def Reading.Of (segment : List Token) (r : Reading) : Prop :=
  match r.error with
  | none => r.statements.map Statement.token <+ segment
  | some e => ∃ before malformed, segment = before ++ malformed ∧
      r.statements.map Statement.token <+ before ∧ ∃ t ∈ malformed, e.pos = t.pos

/-- A text as scanning leaves it, without braces. -/
structure Scanned.Braceless (s : Scanned) : Prop where
  ended : s.finish.kind = .endOfInput
  worded : ∀ t ∈ s.tokens, t.Worded
  braces : ∀ t ∈ s.tokens, t.kind ≠ .leftCurly ∧ t.kind ≠ .rightCurly

/-- A text of one segment: only its last token may be a semicolon. -/
structure Scanned.Segment (s : Scanned) : Prop extends s.Braceless where
  inside : ∀ t ∈ s.tokens.dropLast, t.kind ≠ .semicolon

/-- The text is read as `r`, with the end of input as one more place for the error. -/
def Reading.From (s : Scanned) (r : Reading) : Prop :=
  match r.error with
  | none => r.statements.map Statement.token <+ s.tokens
  | some e => ∃ before malformed, s.tokens = before ++ malformed ∧ malformed ≠ [] ∧
      r.statements.map Statement.token <+ before ∧ ∃ t ∈ malformed ++ [s.finish], e.pos = t.pos

namespace Parser

open Bounded

variable {α : Type}

/-! ## Where statements start -/

/-- The statements that `p` yields start at `token`. -/
def Starts (token : Token) (p : Parser Statement) : Prop :=
  ∀ s found t, p s = .ok found t → found.token = token

section Starts

variable {token : Token}

theorem starts_pure {found : Statement} (h : found.token = token) : Starts token (pure found) := by
  intro s _ t run
  cases run
  exact h

theorem Starts.bind {p : Parser α} {f : α → Parser Statement} (h : ∀ a, Starts token (f a)) :
    Starts token (p >>= f) := by
  intro s found t run
  obtain ⟨a, u, -, rest⟩ := bind_eq_ok_iff.1 run
  exact h a u found t rest

theorem Starts.ite {p q : Parser Statement} {c : Prop} [Decidable c] (yes : Starts token p)
    (no : Starts token q) : Starts token (if c then p else q) := by
  split
  · exact yes
  · exact no

theorem starts_failAt (pos : Position) (fault : SyntaxError.Fault) :
    Starts token (failAt pos fault) := by
  intro s found t run
  cases run

theorem Starts.current {f : Token → Parser Statement} {s t : State} {found : Statement}
    (run : (Parser.current >>= f) s = .ok found t) (h : ∀ token, Starts token (f token)) :
    found.token = s.current :=
  h s.current s found t run

/-- A statement keeps the token that it starts at. -/
theorem token_of_statement {bound : Nat} {inner : Productions} {s t : State} {found : Statement}
    (run : statement bound inner s = .ok (some found) t) : found.token = s.current := by
  by_cases semicolon : s.current.kind = .semicolon
  · rw [statement_of_semicolon semicolon] at run
    cases run
  by_cases declares : s.current.kind = .var ∨ s.current.kind = .constant
  · rw [statement_of_declaration declares] at run
    exact Starts.current (map_some_eq_ok run) fun _ => .bind fun _ => .bind fun _ => .ite
      (.bind fun _ => .bind fun _ => .bind fun _ => starts_pure rfl)
      (.bind fun _ => .ite (starts_failAt _ _) (starts_pure rfl))
  by_cases returns : s.current.kind = .regresa
  · rw [statement_of_regresa returns] at run
    exact Starts.current (map_some_eq_ok run) fun _ => .bind fun _ => .bind fun _ => starts_pure rfl
  by_cases named : s.current.kind = .func ∧ s.peek.kind = .identifier
  · rw [statement_of_func named.1 named.2] at run
    exact Starts.current (map_some_eq_ok run) fun _ => .bind fun _ => .bind fun _ => .bind fun _ =>
      starts_pure rfl
  obtain ⟨not_var, not_constant⟩ := not_or.1 declares
  rw [statement_of_ne semicolon not_var not_constant returns named] at run
  obtain ⟨value, u, -, rest⟩ := bind_eq_ok_iff.1 run
  obtain ⟨_, v, -, rest⟩ := bind_eq_ok_iff.1 rest
  cases rest
  rfl

end Starts

/-! ## Reading a segment -/

/-- What is left to read. -/
def State.left (s : State) : Scanned := ⟨s.tokens, s.finish⟩

theorem segment_onward {s t : State} (h : s.left.Segment) (ahead : s.Ahead t) :
    t.left.Segment where
  ended := (congrArg Token.kind ahead.finish).trans h.ended
  worded u left := h.worded u (ahead.tokens.subset left)
  braces u left := h.braces u (ahead.tokens.subset left)
  inside u member := by
    obtain ⟨used, tokens⟩ := ahead.tokens
    have some_left : t.tokens ≠ [] := by
      intro none
      rw [State.left, none] at member
      exact absurd member List.not_mem_nil
    refine h.inside u ?_
    rw [State.left, ← tokens, List.dropLast_append_of_ne_nil some_left]
    exact List.mem_append_right _ member

/-- The rest of a malformed statement is the rest of the segment. -/
theorem tail_resume {tokens : List Token}
    (braces : ∀ t ∈ tokens, t.kind ≠ .leftCurly ∧ t.kind ≠ .rightCurly)
    (inside : ∀ t ∈ tokens.dropLast, t.kind ≠ .semicolon) : (resume 0 tokens).tail = [] := by
  induction tokens with
  | nil => rfl
  | cons t rest ih =>
    obtain ⟨not_opening, not_closing⟩ := braces t List.mem_cons_self
    rw [Boundary.resume_cons_of_ne not_opening not_closing]
    cases rest with
    | nil => rw [if_pos ⟨rfl, .inr rfl⟩, List.tail_cons]
    | cons u us =>
      have others := fun t member => braces t (List.mem_cons_of_mem _ member)
      have here : t.kind ≠ .semicolon := inside t List.mem_cons_self
      have goes : atBlockEnd (u :: us) = false :=
        decide_eq_false (others u List.mem_cons_self).2
      rw [if_neg (by simp [here, goes])]
      exact ih others fun t member => inside t (List.mem_cons_of_mem _ member)

section Segment

variable {limit bound n : Nat} {s : State}

/-- A segment to be read as a statement by itself: nothing in it recovers from errors. -/
def segmentSource (h : s.left.Segment) : Source := ⟨s.left, False, h.ended, h.worded⟩

theorem errors_of_reached (h : s.left.Segment) {t : State} (reached : (segmentSource h).Reached t) :
    t.errors = #[] := by
  by_contra recorded
  rcases reached.recovers recorded with outside | ⟨u, member, opens⟩
  · exact outside
  · exact (h.braces u member).1 opens

/-- No statement records an error on the way. -/
theorem errors_of_statement (h : s.left.Segment) (clean : s.errors = #[])
    {found : Option Statement} {t : State}
    (run : statement bound (Productions.upTo limit n) s = .ok found t) : t.errors = #[] := by
  have start : (segmentSource h).Upto [] s := Source.upto_start rfl rfl clean
  have ends := Source.adds_statement bound (Productions.upTo limit n) [] s start
  rw [run] at ends
  exact errors_of_reached h ends.toReached

/-- A malformed statement is reported at one of the tokens left. -/
theorem located_of_statement (h : s.left.Segment) (clean : s.errors = #[]) {e : SyntaxError}
    {t : State} (run : statement bound (Productions.upTo limit n) s = .error (.error e) t) :
    t.errors = #[] ∧ ∃ u ∈ s.tokens ++ [s.finish], e.pos = u.pos := by
  have start : (segmentSource h).Upto [] s := Source.upto_start rfl rfl clean
  have ends := Source.adds_statement bound (Productions.upTo limit n) [] s start
  rw [run] at ends
  exact ⟨errors_of_reached h ends.2, ends.1⟩

theorem ahead_suffix {t : State} (h : s.Ahead t) : t.ahead <:+ s.ahead := by
  obtain ⟨used, tokens⟩ := h.tokens
  rw [State.ahead, State.ahead, ← tokens]
  cases used with
  | nil => exact List.suffix_refl _
  | cons first used => exact (List.tail_suffix _).trans (List.suffix_append used _)

/-- Nothing is read where no token is left. -/
theorem collect_of_nil {inner : Productions} {rounds : Nat} {t : State} {found : List Statement}
    (ended : s.finish.kind = .endOfInput) (none : s.tokens = [])
    (run : collect (programItem bound inner) rounds s = .ok found t) : found = [] ∧ t = s := by
  have last : s.current.kind = .endOfInput := by
    rw [State.current, none]
    exact ended
  cases rounds with
  | zero => cases run
  | succ rounds =>
    rw [collect, bind_of_ok (programItem_of_endOfInput last)] at run
    cases run
    exact ⟨rfl, rfl⟩

/-- A statement in front of what is read after it. -/
theorem reading_cons {s v : Scanned} {t : Token} {rest : List Token} {one : Option Statement}
    {found : List Statement} {error : Option SyntaxError} (tokens : s.tokens = t :: rest)
    (starts : ∀ first ∈ one, first.token = t) (later : v.tokens <:+ rest)
    (finish : v.finish = s.finish) (h : Reading.From v ⟨found, error⟩) :
    Reading.From s ⟨one.toList ++ found, error⟩ := by
  have first : one.toList.map Statement.token <+ [t] := by
    cases one with
    | none => exact List.nil_sublist _
    | some one => simp [starts one rfl]
  obtain ⟨used, rfl⟩ := later
  cases error with
  | none =>
    show (one.toList ++ found).map Statement.token <+ s.tokens
    rw [List.map_append, tokens]
    exact first.append (h.trans (List.sublist_append_right used _))
  | some e =>
    obtain ⟨before, malformed, whole, left, starting, u, member, place⟩ := h
    refine ⟨t :: (used ++ before), malformed, ?_, left, ?_, u, finish ▸ member, place⟩
    · rw [tokens, whole, List.cons_append, List.append_assoc]
    · rw [List.map_append]
      exact first.append (starting.trans (List.sublist_append_right used _))

/-- The statements of a segment are read up to its first error, and nothing after it. -/
theorem reading_of_collect (rounds : Nat) : ∀ {s t : State} {found : List Statement},
    s.left.Segment → s.errors = #[] →
      collect (programItem bound (Productions.upTo limit n)) rounds s = .ok found t →
      ∃ error : Option SyntaxError, t.errors.toList = error.toList ∧
        Reading.From s.left ⟨found, error⟩ := by
  induction rounds with
  | zero =>
    intro s t found _ _ run
    cases run
  | succ rounds ih =>
    intro s t found segment clean run
    obtain ⟨round, v, first, rest⟩ := bind_eq_ok_iff.1 run
    cases round with
    | none =>
      obtain ⟨rfl, -⟩ := programItem_eq_none first
      cases rest
      exact ⟨none, by simp [clean], List.nil_sublist _⟩
    | some here =>
      obtain ⟨before, read⟩ := programItem_eq_some first
      obtain ⟨later, w, again, same⟩ := bind_eq_ok_iff.1 rest
      cases same
      have tokens : s.tokens = s.current :: s.ahead := State.tokens_eq_cons segment.ended before
      rcases item_cases read with ⟨one, u, ok, rfl, rfl⟩ | ⟨e, u, failed, rfl, rfl⟩
      · have onward : s.Ahead u := Keeps.ok ok
        have further : s.Ahead u.advance := IsTrans.trans _ _ _ onward u.ahead_advance
        have clear : u.errors = #[] := errors_of_statement segment clean ok
        obtain ⟨error, errors, reading⟩ := ih (segment_onward segment further) clear again
        refine ⟨error, errors, reading_cons tokens ?_ (ahead_suffix onward) further.finish reading⟩
        rintro found rfl
        exact token_of_statement ok
      · -- what is skipped is the rest of the segment, so there is nothing left to read
        obtain ⟨none, located⟩ := located_of_statement segment clean failed
        have onward : s.Ahead u := Keeps.error failed
        have left := segment_onward segment onward
        have skipped : (u.recover e).advance.tokens = [] := tail_resume left.braces left.inside
        obtain ⟨rfl, rfl⟩ := collect_of_nil (s := (u.recover e).advance) left.ended skipped again
        refine ⟨some e, ?_, [], s.tokens, rfl, ?_, List.Sublist.slnil, located⟩
        · simp [State.recover, State.advance, none]
        · rw [tokens]
          exact List.cons_ne_nil _ _

end Segment

end Parser

/-! ## Texts -/

/-- A text of one segment is read as statements with at most one error after them. -/
theorem Scanned.Segment.reading {s : Scanned} (h : s.Segment) (limit : Nat) :
    ∃ error : Option SyntaxError, (s.parse limit).errors = error.toList ∧
      Reading.From s ⟨(s.parse limit).program, error⟩ := by
  obtain ⟨found, t, run⟩ := Parser.program_eq_ok limit (s := .ofScanned s) h.ended
  have read : s.parse limit = ⟨found, t.errors.toList⟩ := by
    rw [Scanned.parse, EStateM.run, run]
  rw [read]
  exact Parser.reading_of_collect _ (s := .ofScanned s) h rfl run

/-- A text without braces that ends with a semicolon, and another text after it. -/
theorem Scanned.parse_append (limit : Nat) {first : Scanned} {front : List Token}
    {semicolon finish : Token} (plain : first.Braceless)
    (tokens : first.tokens = front ++ [semicolon]) (kind : semicolon.kind = .semicolon)
    (rest : List Token) (ended : finish.kind = .endOfInput) :
    (Scanned.mk (first.tokens ++ rest) finish).parse limit =
      ⟨(first.parse limit).program ++ ((Scanned.mk rest finish).parse limit).program,
        (first.parse limit).errors ++ ((Scanned.mk rest finish).parse limit).errors⟩ := by
  have closed : (Parser.State.ofScanned first).Closed :=
    ⟨⟨plain.ended, fun t member => (plain.worded t member).toLexed⟩, front, semicolon, tokens, kind⟩
  obtain ⟨found, t, run⟩ := Parser.program_eq_ok limit closed.sane.finish
  obtain ⟨more, u, own⟩ := Parser.program_eq_ok limit (s := .ofScanned ⟨rest, finish⟩) ended
  have both := Parser.program_joined id closed run (.inr plain.braces) ended own
  have whole : (Parser.State.ofScanned first).followedBy ((Scanned.mk rest finish).move id) =
      .ofScanned ⟨first.tokens ++ rest, finish⟩ := by
    have same : (Scanned.mk rest finish).move id = ⟨rest, finish⟩ :=
      congrArg (Scanned.mk · finish) (List.map_id rest)
    rw [same, Parser.State.followedBy_eq]
    rfl
  have errors : u.errors.map (SyntaxError.move id) = u.errors := Array.map_id _
  rw [whole, Program.move_id] at both
  simp only [Scanned.parse, EStateM.run, run, own, both]
  simp [Parser.Transport.state_moving, errors]

/-- Tokens of which only the last may be a semicolon are one segment. -/
theorem segments_concat {front : List Token} (last : Token)
    (inside : ∀ t ∈ front, t.kind ≠ .semicolon) :
    segments (front ++ [last]) = [front ++ [last]] := by
  refine List.splitBy_of_isChain (List.concat_ne_nil _ _) ?_
  induction front with
  | nil => exact List.isChain_singleton _
  | cons t front ih =>
    obtain ⟨here, others⟩ := List.forall_mem_cons.1 inside
    rw [List.cons_append, List.isChain_cons]
    exact ⟨fun _ _ => decide_eq_true here, ih others⟩

/-- What follows a semicolon is in the next segments. -/
theorem segments_append {front : List Token} {semicolon : Token} (rest : List Token)
    (inside : ∀ t ∈ front, t.kind ≠ .semicolon) (kind : semicolon.kind = .semicolon) :
    segments (front ++ [semicolon] ++ rest) = (front ++ [semicolon]) :: segments rest := by
  have ends : segments (front ++ [semicolon] ++ rest) =
      segments (front ++ [semicolon]) ++ segments rest := by
    refine List.splitBy_append fun x last y _ => ?_
    rw [List.getLast?_concat] at last
    cases last
    simp [kind]
  rw [ends, segments_concat semicolon inside, List.singleton_append]

/-- The error of a segment that ends with a semicolon stands before it or at it. -/
theorem Reading.From.of_semicolon {front : List Token} {semicolon finish : Token} {r : Reading}
    (h : r.From ⟨front ++ [semicolon], finish⟩) (place : finish.pos = semicolon.pos) :
    r.Of (front ++ [semicolon]) := by
  obtain ⟨statements, error⟩ := r
  cases error with
  | none => exact h
  | some e =>
    obtain ⟨before, malformed, whole, left, starting, t, member, found⟩ := h
    refine ⟨before, malformed, whole, starting, ?_⟩
    rcases List.mem_append.1 member with here | last
    · exact ⟨t, here, found⟩
    · -- the malformed statement goes on to the end of the segment
      have ends : malformed.getLast? = some semicolon := by
        rw [← List.getLast?_append_of_ne_nil before left, ← whole, List.getLast?_concat]
      rw [List.mem_singleton.1 last, place] at found
      exact ⟨semicolon, List.mem_of_getLast? ends, found⟩

/-- The error of the last segment stands before the end of input or at it. -/
theorem Reading.From.of_finish {s : Scanned} {r : Reading} (h : r.From s) :
    r.Of (s.tokens ++ [s.finish]) := by
  obtain ⟨statements, error⟩ := r
  cases error with
  | none => exact h.trans (List.sublist_append_left _ _)
  | some e =>
    obtain ⟨before, malformed, whole, -, starting, located⟩ := h
    exact ⟨before, malformed ++ [s.finish], by rw [whole, List.append_assoc], starting, located⟩

/-- Tokens without a semicolon, or up to the first one and after it. -/
theorem semicolon_cases (tokens : List Token) :
    (∀ t ∈ tokens, t.kind ≠ .semicolon) ∨ ∃ front semicolon rest,
      tokens = front ++ [semicolon] ++ rest ∧ (∀ t ∈ front, t.kind ≠ .semicolon) ∧
        semicolon.kind = .semicolon := by
  cases found : tokens.find? (·.kind = .semicolon) with
  | none => exact .inl (by simpa using found)
  | some semicolon =>
    obtain ⟨kind, front, rest, rfl, others⟩ := List.find?_eq_some_iff_append.1 found
    exact .inr ⟨front, semicolon, rest, by simp, by simpa using others, of_decide_eq_true kind⟩

/-- A text without braces is read segment by segment. -/
theorem Scanned.Braceless.readings (limit : Nat) {tokens : List Token} {finish : Token}
    (h : Braceless ⟨tokens, finish⟩) :
    ∃ readings, List.Forall₂ Reading.Of (segments (tokens ++ [finish])) readings ∧
      (Scanned.parse limit ⟨tokens, finish⟩).program = readings.flatMap Reading.statements ∧
      (Scanned.parse limit ⟨tokens, finish⟩).errors = readings.filterMap Reading.error := by
  induction size : tokens.length using Nat.strong_induction_on generalizing tokens with
  | _ count ih =>
    rcases semicolon_cases tokens with inside | ⟨front, semicolon, rest, rfl, inside, kind⟩
    · have segment : Segment ⟨tokens, finish⟩ :=
        ⟨h, fun t member => inside t (List.dropLast_subset _ member)⟩
      obtain ⟨error, errors, reading⟩ := segment.reading limit
      refine ⟨[⟨(Scanned.parse limit ⟨tokens, finish⟩).program, error⟩], ?_, by simp, ?_⟩
      · rw [segments_concat finish inside]
        exact .cons reading.of_finish .nil
      · cases error <;> simpa using errors
    · -- the end of input after the first segment stands at the semicolon, where errors may stand
      let first : Scanned := ⟨front ++ [semicolon], ⟨.endOfInput, "", semicolon.pos⟩⟩
      have plain : first.Braceless :=
        ⟨rfl, fun t member => h.worded t (List.mem_append_left _ member),
          fun t member => h.braces t (List.mem_append_left _ member)⟩
      have later : Braceless ⟨rest, finish⟩ :=
        ⟨h.ended, fun t member => h.worded t (List.mem_append_right _ member),
          fun t member => h.braces t (List.mem_append_right _ member)⟩
      have segment : first.Segment := ⟨plain, by simpa [first] using inside⟩
      have fewer : rest.length < count := by
        rw [← size, List.length_append, List.length_append, List.length_singleton]
        omega
      obtain ⟨error, errors, reading⟩ := segment.reading limit
      obtain ⟨readings, all, program, recorded⟩ := ih rest.length fewer later rfl
      have both := parse_append limit plain rfl kind rest h.ended
      refine ⟨⟨(first.parse limit).program, error⟩ :: readings, ?_, ?_, ?_⟩
      · rw [List.append_assoc, segments_append _ inside kind]
        exact .cons (reading.of_semicolon rfl) all
      · rw [both, program, List.flatMap_cons]
      · rw [both, recorded, errors]
        cases error <;> simp

/-- **One mistake, one error.**  A text without braces is read segment by segment, each up to its
semicolon or to the end of input: as statements that start at tokens of the segment, and at most one
error, which stands at a token of the segment and after the starts of all its statements. -/
theorem one_error_per_segment (limit : Nat) (source : String)
    (braces : ∀ t ∈ tokenize source, t.kind ≠ .leftCurly ∧ t.kind ≠ .rightCurly) :
    ∃ readings, List.Forall₂ Reading.Of (segments (tokenize source)) readings ∧
      (parse limit source).program = readings.flatMap Reading.statements ∧
      (parse limit source).errors = readings.filterMap Reading.error :=
  Scanned.Braceless.readings limit ⟨kind_finish_scan source, worded_scan source,
    fun t member => braces t (List.mem_append_left _ member)⟩

/-- A parenthesis too many after two statements, a constant without a value, a segment without an
error, too deep a nesting, and an operand that is missing at the end of input. -/
theorem one_error_per_segment_malformed :
    let source := "a b ) c); let x; y; ((((z)))) w; 1 +"
    (∀ t ∈ tokenize source, t.kind ≠ .leftCurly ∧ t.kind ≠ .rightCurly) ∧
      (segments (tokenize source)).length = 5 ∧
      (parse 3 source).errors.map SyntaxError.fault =
        [.noOperand ")", .missingInitializer "x", .nestingTooDeep 3, .noOperand "EOF"] ∧
      ∃ readings, List.Forall₂ Reading.Of (segments (tokenize source)) readings ∧
        (parse 3 source).program = readings.flatMap Reading.statements ∧
        (parse 3 source).errors = readings.filterMap Reading.error := by
  intro source
  have braces : ∀ t ∈ tokenize source, t.kind ≠ .leftCurly ∧ t.kind ≠ .rightCurly := by
    decide +kernel
  exact ⟨braces, by decide +kernel, by decide +kernel, one_error_per_segment 3 source braces⟩

end Guion
