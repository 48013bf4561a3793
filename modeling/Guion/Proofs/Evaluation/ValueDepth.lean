import Guion.Proofs.Evaluation.Termination
import Guion.Proofs.Parser.Nesting
import Guion.Proofs.Scope.Constants

/-!
# How deep values are

Objects hold objects, and what walks over a value recurs as deep as they do (`Value.depth`).  No
limit is charged for that depth: with one level of nesting and of evaluation, each of a row of
declarations can wrap the value declared before it, so the depth of bound values grows with the text
(`exists_wrapped`).  Only where no expression is read, or none evaluated, are all bound values flat
(`Session.flat_eval`).
-/

set_option autoImplicit false

namespace Guion

open Run Bounded

mutual

/-- The number of objects inside one another in the value. -/
def Value.depth : Value → Nat
  | .object _ properties => Value.depthAll properties + 1
  | .returned value => value.depth
  | _ => 0

/-- The number of objects inside one another in one of the properties. -/
def Value.depthAll : List (String × Value) → Nat
  | [] => 0
  | (_, value) :: rest => max value.depth (Value.depthAll rest)

end

/-! ## Programs that evaluate nothing -/

/-- No bound value is an object. -/
def Heap.Flat (heap : Heap) : Prop :=
  ∀ i name binding, heap.binding? i name = some binding → binding.value.depth = 0

/-- The machine stays without objects. -/
def Machine.StaysFlat (s t : Machine) : Prop := s.heap.Flat → t.heap.Flat

instance : IsPreorder Machine Machine.StaysFlat where
  refl _ := id
  trans _ _ _ first rest := rest ∘ first

theorem keeps_flat_declare (frame : FrameId) (name : String) (value : Value)
    (flat : value.depth = 0) (constant : Bool) :
    Keeps Machine.StaysFlat (declare frame name value constant) := by
  constructor
  intro s before
  rw [declare]
  cases declared : s.heap.declare frame name value constant with
  | error e => exact before
  | ok heap =>
    obtain ⟨-, rfl⟩ := Heap.declare_eq_ok declared
    intro i query binding (found : (s.heap.bind frame name ⟨value, constant⟩).binding? i query = _)
    rw [Heap.binding?_bind] at found
    split at found
    · cases found
      exact flat
    · exact before i query binding found

/-- The evaluation that always fails. -/
def failing (cause : RuntimeError) : Evaluator := fun _ _ => Bounded.fail cause

/-- Where every evaluation fails, a statement binds a function or null. -/
theorem keeps_flat_statement (cause : RuntimeError) (frame : FrameId) (s : Statement) :
    Keeps Machine.StaysFlat (statement (failing cause) frame s) := by
  cases s with
  | expression token e => exact ⟨fun _ => id⟩
  | declaration token name value constant =>
    cases value with
    | none => exact keeps_flat_declare frame name.name .null rfl constant
    | some e => exact ⟨fun _ => id⟩
  | function token name parameters body =>
    constructor
    intro s
    exact (keeps_flat_declare frame name.name _ rfl true).final_rel { s with fresh := s.fresh + 1 }
  | result token value => cases value <;> exact ⟨fun _ => id⟩

theorem keeps_flat_statements (cause : RuntimeError) (frame : FrameId) (ss : List Statement) :
    ∀ last, Keeps Machine.StaysFlat (statements (failing cause) frame last ss) := by
  induction ss with
  | nil => exact fun last => keeps_pure last
  | cons s ss ih =>
    intro last
    refine (keeps_flat_statement cause frame s).then fun value => ?_
    split
    · infer_instance
    · exact ih _

open Weights in
/-- Statements without expressions run alike under every evaluation. -/
theorem statements_of_depth_eq_zero (eval eval' : Evaluator) (frame : FrameId) {ss : List Statement}
    (none : Statement.depthAll expressions ss = 0) :
    ∀ last, statements eval frame last ss = statements eval' frame last ss := by
  induction ss with
  | nil => exact fun last => rfl
  | cons s ss ih =>
    obtain ⟨first, others⟩ : s.depth expressions = 0 ∧ Statement.depthAll expressions ss = 0 := by
      rw [Statement.depthAll] at none
      omega
    have same : statement eval frame s = statement eval' frame s := by
      have absent (value : Option Expression) (h : Expression.depthOption expressions value = 0) :
          value = .none := by
        cases value with
        | none => rfl
        | some e => exact absurd h (Nat.ne_of_gt e.depth_expressions_pos)
      cases s with
      | expression token e =>
        have positive := e.depth_expressions_pos
        simp only [Statement.depth] at first
        omega
      | declaration token name value constant =>
        rw [Statement.depth] at first
        rw [absent value (by omega)]
        rfl
      | function token name parameters body => rfl
      | result token value =>
        rw [Statement.depth] at first
        rw [absent value (by omega)]
        rfl
    intro last
    rw [statements, statements, same]
    congr 1
    funext value
    split
    · rfl
    · exact ih others _

/-- With no depth to evaluate in, every evaluation fails. -/
theorem evaluate_of_evaluation_eq_zero {setting : Setting} (none : setting.limits.evaluation = 0) :
    evaluate setting = failing (.stackOverflow 0) := by
  funext e frame s
  rw [evaluate_eq, nested_apply, none, if_pos (Nat.zero_le _)]
  rfl

namespace Session

theorem flat_start (setting : Setting) (capacity : Option Nat) :
    (start setting capacity).machine.heap.Flat :=
  forall_binding?_start (P := fun _ value => value.depth = 0) rfl rfl rfl rfl rfl setting capacity

/-- Where no expression is read, or none is evaluated, all bound values are flat. -/
theorem flat_eval {session : Session} (flat : session.machine.heap.Flat) (source : String)
    (idle : session.setting.limits.nesting = 0 ∨ session.setting.limits.evaluation = 0) :
    (session.eval source).2.machine.heap.Flat := by
  obtain ⟨setting, globals, machine⟩ := session
  have run (p : Program) (read : p = (parse setting.limits.nesting source).program) :
      Keeps Machine.StaysFlat (program setting globals p) := by
    have fails : statements (evaluate setting) globals .null p =
        statements (failing (.stackOverflow 0)) globals .null p := by
      rcases idle with none | none
      · have low := depth_parse_le setting.limits.nesting source
        rw [← read, none] at low
        exact statements_of_depth_eq_zero _ _ _ (Nat.le_zero.1 low) _
      · rw [evaluate_of_evaluation_eq_zero none]
    rw [program, fails]
    have := keeps_flat_statements (.stackOverflow 0) globals p .null
    exact keeps_bind
  rw [eval]
  cases (parse setting.limits.nesting source).errors with
  | nil =>
    show ((Run.program _ _ _).outcome _).2.heap.Flat
    rw [Run.outcome_snd]
    exact (run _ rfl).final_rel machine flat
  -- a text with syntax errors does not run
  | cons error errors => exact flat

end Session

/-! ## Declarations that wrap one another -/

/-- The names of the values: null first, then each that wraps the one before. -/
def wrapperName : Nat → String
  | 0 => "nulo"
  | k + 1 => String.ofList (List.replicate (k + 1) 'a')

theorem toList_wrapperName_succ (k : Nat) :
    (wrapperName (k + 1)).toList = List.replicate (k + 1) 'a' := by
  rw [wrapperName, String.toList_ofList]

theorem wrapperName_ne_of_lt {j k : Nat} (h : j < k) : wrapperName j ≠ wrapperName k := by
  obtain ⟨k, rfl⟩ : ∃ i, k = i + 1 := ⟨k - 1, by omega⟩
  intro same
  have letters := congrArg String.toList same
  rw [toList_wrapperName_succ] at letters
  cases j with
  | zero =>
    have other : 'n' ∈ List.replicate (k + 1) 'a' := letters ▸ (by decide)
    cases List.eq_of_mem_replicate other
  | succ j =>
    rw [toList_wrapperName_succ] at letters
    have lengths := congrArg List.length letters
    simp only [List.length_replicate] at lengths
    omega

/-- The names are identifiers. -/
theorem tokensAt_wrapperName (k : Nat) {rest : List Char} (apart : Apart isLetter rest)
    (pos : Position) : tokensAt pos ((wrapperName k).toList ++ rest) =
      ⟨.identifier, wrapperName k, pos⟩ :: tokensAt (pos.advance (wrapperName k).toList) rest := by
  have free : Token.keyword? (wrapperName k) = none := by
    cases k with
    | zero => rfl
    | succ k =>
      -- every reserved word has another letter
      have every : Token.keywords.all (fun entry => entry.1.toList.any (· ≠ 'a')) = true := by
        decide
      cases reserved : Token.keyword? (wrapperName (k + 1)) with
      | none => rfl
      | some kind =>
        obtain ⟨c, member, other⟩ :=
          List.any_eq_true.1 (List.all_eq_true.1 every _ (Lexeme.mem_keywords reserved))
        rw [toList_wrapperName_succ] at member
        exact absurd (List.eq_of_mem_replicate member) (of_decide_eq_true other)
  have letters : ∀ c ∈ (wrapperName k).toList, isLetter c := by
    cases k with
    | zero => exact List.all_eq_true.1 (by decide)
    | succ k =>
      rw [toList_wrapperName_succ]
      intro c member
      rw [List.eq_of_mem_replicate member]
      rfl
  have some_letter : (wrapperName k).toList ≠ [] := by
    cases k with
    | zero => decide
    | succ k =>
      rw [toList_wrapperName_succ]
      exact List.cons_ne_nil _ _
  have word := tokensAt_word some_letter letters apart pos
  rw [free] at word
  exact word

/-- The text of `n` declarations, the first of which wraps the value named for `k`. -/
def wrappers (k : Nat) : Nat → String
  | 0 => ""
  | n + 1 =>
    "var " ++ wrapperName (k + 1) ++ " = \x7b" ++ wrapperName k ++ "\x7d;" ++ wrappers (k + 1) n

namespace Parser

/-- The tokens declare `n` values, the first of which wraps the value named for `k`. -/
inductive Wraps : Nat → Nat → List Token → Prop where
  | nothing {k : Nat} : Wraps k 0 []
  | wrapper {k n : Nat} {var name equals opening key closing semicolon : Token} {ts : List Token}
      (var_kind : var.kind = .var) (name_kind : name.kind = .identifier)
      (named : name.text = wrapperName (k + 1)) (equals_kind : equals.kind = .assign)
      (opening_kind : opening.kind = .leftCurly) (key_kind : key.kind = .identifier)
      (wraps : key.text = wrapperName k) (closing_kind : closing.kind = .rightCurly)
      (semicolon_kind : semicolon.kind = .semicolon) (more : Wraps (k + 1) n ts) :
      Wraps k (n + 1) (var :: name :: equals :: opening :: key :: closing :: semicolon :: ts)

theorem Wraps.length_le {k n : Nat} {ts : List Token} (h : Wraps k n ts) : n ≤ ts.length := by
  induction h with
  | nothing => exact Nat.le_refl _
  | wrapper _ _ _ _ _ _ _ _ _ _ ih =>
    simp only [List.length_cons]
    omega

end Parser

theorem wraps_tokensAt (n : Nat) : ∀ (k : Nat) (pos : Position),
    Parser.Wraps k n (tokensAt pos (wrappers k n).toList) := by
  induction n with
  | zero =>
    intro k pos
    have none : tokensAt pos (wrappers k 0).toList = [] := Cursor.scan_nil pos
    rw [none]
    exact .nothing
  | succ n ih =>
    intro k pos
    have spelled : (wrappers k (n + 1)).toList =
        "var".toList ++ ' ' :: ((wrapperName (k + 1)).toList ++ ' ' :: '=' :: ' ' :: '\x7b' ::
          ((wrapperName k).toList ++ '\x7d' :: ';' :: (wrappers (k + 1) n).toList)) := by
      simp [wrappers]
    rw [spelled, tokensAt_keyword "var" rfl (by rintro _ ⟨⟩; rfl), tokensAt_space rfl,
      tokensAt_wrapperName (k + 1) (by rintro _ ⟨⟩; rfl), tokensAt_space rfl,
      tokensAt_symbol (c := '=') rfl (.inr (by simp)) (by simp), tokensAt_space rfl,
      tokensAt_mark '\x7b' rfl (by decide), tokensAt_wrapperName k (by rintro _ ⟨⟩; rfl),
      tokensAt_mark '\x7d' rfl (by decide), tokensAt_mark ';' rfl (by decide)]
    exact .wrapper rfl rfl rfl rfl rfl rfl rfl rfl rfl (ih (k + 1) _)

/-- The program declares `n` values, the first of which wraps the value named for `k`. -/
inductive Wrapping : Nat → Nat → Program → Prop where
  | nothing {k : Nat} : Wrapping k 0 []
  | wrapper {k n : Nat} {token opening : Token} {name key : Identifier} {p : Program}
      (named : name.name = wrapperName (k + 1)) (wraps : key.name = wrapperName k)
      (more : Wrapping (k + 1) n p) :
      Wrapping k (n + 1)
        (.declaration token name (some (.object opening [.mk key none])) false :: p)

namespace Parser

open Bounded

variable {limit bound : Nat} {inner : Productions} {s : State}

/-- An object with one name, read one level deep. -/
theorem expression_onto_wrapper {opening key closing semicolon : Token} {ts : List Token}
    (room : s.depth < limit) (opening_kind : opening.kind = .leftCurly)
    (key_kind : key.kind = .identifier) (closing_kind : closing.kind = .rightCurly)
    (semicolon_kind : semicolon.kind = .semicolon) :
    expression limit (bound + 1) inner .lowest
        (s.onto (opening :: key :: closing :: semicolon :: ts)) =
      .ok (.object opening [.mk (.ofToken key) none]) (s.onto (closing :: semicolon :: ts)) := by
  have first (t : State) : property inner (t.onto (opening :: key :: closing :: semicolon :: ts)) =
      .ok (.mk (.ofToken key) none) (t.onto (key :: closing :: semicolon :: ts)) := by
    rw [property, bind_of_ok (expectIdentifier_onto key_kind), peek_bind, State.peek_onto,
      if_neg (by rw [closing_kind]; decide)]
    rfl
  have others (t : State) :
      moreProperties (bound + 1) inner (t.onto (key :: closing :: semicolon :: ts)) =
        .ok [] (t.onto (key :: closing :: semicolon :: ts)) := by
    have stop : commaProperty inner (t.onto (key :: closing :: semicolon :: ts)) =
        .ok none (t.onto (key :: closing :: semicolon :: ts)) := by
      rw [commaProperty, peek_bind, State.peek_onto, if_neg (by rw [closing_kind]; decide)]
      rfl
    rw [moreProperties, collect, bind_of_ok stop]
    rfl
  have found (t : State) :
      operand limit (bound + 1) inner (t.onto (opening :: key :: closing :: semicolon :: ts)) =
        .ok (.object opening [.mk (.ofToken key) none]) (t.onto (closing :: semicolon :: ts)) := by
    rw [operand, current_bind, State.current_onto]
    simp only [opening_kind]
    rw [object, properties, Bounded.bind_of_ok (u := t.onto (key :: closing :: semicolon :: ts))
      (a := [.mk (.ofToken key) none])]
    · rw [bind_of_ok (expect_onto closing_kind)]
      rfl
    · rw [peek_bind, State.peek_onto, if_neg (by rw [key_kind]; decide), bind_of_ok (first t),
        bind_of_ok (others t)]
      rfl
  have stop (t : State) : ¬ BindingPower.lowest <
      .ofKind (t.onto (closing :: semicolon :: ts)).peek.kind := by
    rw [State.peek_onto, semicolon_kind]
    decide
  have run (t : State) : (do
      let left ← operand limit (bound + 1) inner
      keepingDepth (operators limit (bound + 1) inner .lowest (bound + 1) left) : Parser Expression)
        (t.onto (opening :: key :: closing :: semicolon :: ts)) =
          .ok (.object opening [.mk (.ofToken key) none])
            (t.onto (closing :: semicolon :: ts)) := by
    rw [bind_of_ok (found t)]
    exact keepingDepth_of_ok (operators_of_not_lt (stop t))
  exact nested_of_ok (s := s.onto (opening :: key :: closing :: semicolon :: ts)) room
    (run { s with depth := s.depth + 1 })

theorem statement_onto_wrapper (bound n : Nat)
    {var name equals opening key closing semicolon : Token} {ts : List Token}
    (room : s.depth < limit) (var_kind : var.kind = .var)
    (name_kind : name.kind = .identifier) (equals_kind : equals.kind = .assign)
    (opening_kind : opening.kind = .leftCurly) (key_kind : key.kind = .identifier)
    (closing_kind : closing.kind = .rightCurly) (semicolon_kind : semicolon.kind = .semicolon) :
    statement bound (Productions.upTo limit (n + 1))
        (s.onto (var :: name :: equals :: opening :: key :: closing :: semicolon :: ts)) =
      .ok (some (.declaration var (.ofToken name)
        (some (.object opening [.mk (.ofToken key) none])) false)) (s.onto (semicolon :: ts)) := by
  have value : nextExpression (Productions.upTo limit (n + 1)) .lowest
      (s.onto (equals :: opening :: key :: closing :: semicolon :: ts)) =
        .ok (.object opening [.mk (.ofToken key) none]) (s.onto (closing :: semicolon :: ts)) :=
    expression_onto_wrapper room opening_kind key_kind closing_kind semicolon_kind
  have ended : skipSemicolon (s.onto (closing :: semicolon :: ts)) =
      .ok () (s.onto (semicolon :: ts)) := by
    rw [skipSemicolon_apply, if_pos (by rw [State.peek_onto, semicolon_kind])]
    rfl
  have variable_ : decide (var.kind = .constant) = false := by
    rw [var_kind]
    rfl
  have first : (s.onto
      (var :: name :: equals :: opening :: key :: closing :: semicolon :: ts)).current.kind =
        .var := var_kind
  rw [statement_of_declaration (.inl first)]
  refine map_some_of_ok ?_
  rw [declaration, current_bind, bind_of_ok (expectIdentifier_onto name_kind), peek_bind,
    State.peek_onto, if_pos equals_kind, advance_bind]
  show (nextExpression _ _ >>= _)
    (s.onto (equals :: opening :: key :: closing :: semicolon :: ts)) = _
  rw [bind_of_ok value, bind_of_ok ended, State.current_onto, variable_]
  rfl

/-- A row of wrappers is read without errors wherever one level of nesting is left. -/
theorem collect_onto_wraps (n b rounds : Nat) (room : s.depth < limit)
    (finish : s.finish.kind = .endOfInput) {m : Nat} (enough : m < rounds) :
    ∀ {k : Nat} {ts : List Token}, Wraps k m ts →
    ∃ p, collect (programItem b (Productions.upTo limit (n + 1))) rounds (s.onto ts) =
      .ok p (s.onto []) ∧ Wrapping k m p := by
  obtain ⟨rounds, rfl⟩ : ∃ j, rounds = j + 1 := ⟨rounds - 1, by omega⟩
  induction m generalizing rounds with
  | zero =>
    rintro k _ ⟨⟩
    have stop : programItem b (Productions.upTo limit (n + 1)) (s.onto []) = .ok none (s.onto []) :=
      programItem_of_endOfInput finish
    refine ⟨[], ?_, .nothing⟩
    rw [collect, bind_of_ok stop]
    rfl
  | succ m ih =>
    rintro k _ (_ | ⟨var_kind, name_kind, named, equals_kind, opening_kind, key_kind, wraps,
      closing_kind, semicolon_kind, more⟩)
    obtain ⟨rounds, rfl⟩ : ∃ j, rounds = j + 1 := ⟨rounds - 1, by omega⟩
    rename_i var name equals opening key closing semicolon ts
    obtain ⟨p, run, wrapping⟩ := ih rounds (Nat.lt_of_succ_lt_succ enough) more
    have here : (s.onto (var :: name :: equals :: opening :: key :: closing :: semicolon ::
        ts)).current.kind ≠ .endOfInput := by
      rw [State.current_onto, var_kind]
      decide
    have round := (programItem_of_ne here).trans (map_some_of_ok (item_of_ok
      (statement_onto_wrapper b n room var_kind name_kind equals_kind opening_kind key_kind
        closing_kind semicolon_kind)))
    exact ⟨_, collect_go round run, .wrapper named wraps wrapping⟩

end Parser

theorem parse_wrappers {limit : Nat} (room : 0 < limit) (n : Nat) :
    (parse limit (wrappers 0 n)).errors = [] ∧
      Wrapping 0 n (parse limit (wrappers 0 n)).program := by
  have wraps := wraps_tokensAt n 0 .start
  rw [tokensAt_start] at wraps
  have enough := wraps.length_le
  obtain ⟨p, run, wrapping⟩ := Parser.collect_onto_wraps
    (s := Parser.State.ofScanned (scan (wrappers 0 n))) (scan (wrappers 0 n)).tokens.length
    ((scan (wrappers 0 n)).tokens.length + 2) ((scan (wrappers 0 n)).tokens.length + 2) room
    (kind_finish_scan _) (by omega) wraps
  have run : Parser.program limit (.ofScanned (scan (wrappers 0 n))) = .ok p _ := run
  rw [parse, Scanned.parse, EStateM.run, run]
  exact ⟨rfl, wrapping⟩

/-! ## Running them -/

section Running

open Run Bounded

/-- The value named for `k` is bound in the frame and `k` objects deep, and no later name is. -/
structure Heap.Wrapped (heap : Heap) (frame : FrameId) (k : Nat) : Prop where
  inside : frame < heap.size
  value : ∃ binding, heap.binding? frame (wrapperName k) = some binding ∧ binding.value.depth = k
  free : ∀ j, k < j → heap.binding? frame (wrapperName j) = none

variable {setting : Setting} {frame : FrameId}

theorem evaluate_wrapper {s : Machine} (room : s.depth < setting.limits.evaluation)
    (opening : Token) {key : Identifier} {binding : Binding}
    (found : s.heap.binding? frame key.name = some binding) :
    evaluate setting (.object opening [.mk key none]) frame s =
      .ok (.object s.fresh [(key.name, binding.value)]) { s with fresh := s.fresh + 1 } := by
  have entries (t : Machine) (same : t.heap = s.heap) :
      properties (evaluate setting) frame [.mk key none] t = .ok [(key.name, binding.value)] t := by
    have seen : lookup frame key.name t = .ok binding.value t := by
      rw [lookup_apply, same, Heap.lookup_of_binding? found]
    show (lookup frame key.name >>= _) t = _
    rw [bind_of_ok seen]
    rfl
  rw [evaluate_eq, nested_apply, if_neg (Nat.not_le.2 room), ensuring, node,
    bind_of_ok (entries { s with depth := s.depth + 1 } rfl)]
  rfl

/-- A wrapper declares a value one object deeper. -/
theorem statement_wrapper {s : Machine} (room : s.depth < setting.limits.evaluation) {k : Nat}
    (wrapped : s.heap.Wrapped frame k) (token opening : Token) {name key : Identifier}
    (named : name.name = wrapperName (k + 1)) (wraps : key.name = wrapperName k) :
    ∃ identity properties t, statement (evaluate setting) frame
        (.declaration token name (some (.object opening [.mk key none])) false) s =
          .ok (.object identity properties) t ∧
      t.depth = s.depth ∧ t.heap.Wrapped frame (k + 1) := by
  obtain ⟨binding, found, deep⟩ := wrapped.value
  have free := wrapped.free (k + 1) (Nat.lt_succ_self k)
  rw [← wraps] at found
  refine ⟨s.fresh, [(key.name, binding.value)], { s with
    fresh := s.fresh + 1
    heap := s.heap.bind frame name.name ⟨.object s.fresh [(key.name, binding.value)], false⟩ },
    ?_, rfl, ?_⟩
  · show (evaluate setting _ frame >>= _) s = _
    rw [bind_of_ok (evaluate_wrapper room opening found), declare]
    simp only [Heap.declare, named, Heap.value?_eq_none.2 free]
  · constructor
    · rw [Heap.size_bind]
      exact wrapped.inside
    · refine ⟨_, (Heap.binding?_bind ..).trans (if_pos ⟨rfl, wrapped.inside, named.symm⟩), ?_⟩
      simp only [Value.depth, Value.depthAll, deep]
      omega
    · intro j later
      rw [Heap.binding?_bind, if_neg, wrapped.free j (by omega)]
      rintro ⟨-, -, same⟩
      exact wrapperName_ne_of_lt later (named.symm.trans same.symm)

theorem statements_wrapping (setting : Setting) (frame : FrameId) {n : Nat} :
    ∀ {k : Nat} {p : Program} {s : Machine} (last : Value), Wrapping k n p →
      s.depth < setting.limits.evaluation → s.heap.Wrapped frame k →
      (final (statements (evaluate setting) frame last p s)).heap.Wrapped frame (k + n) := by
  induction n with
  | zero =>
    rintro k _ s last ⟨⟩ room wrapped
    exact wrapped
  | succ n ih =>
    rintro k _ s last (_ | ⟨named, wraps, more⟩) room wrapped
    obtain ⟨identity, properties, t, run, same, deeper⟩ :=
      statement_wrapper room wrapped _ _ named wraps
    rw [statements, bind_of_ok run, ← Nat.add_assoc, Nat.add_right_comm]
    exact ih _ more (same ▸ room) deeper

theorem final_program (p : Program) (s : Machine) :
    final (program setting frame p s) = final (statements (evaluate setting) frame .null p s) := by
  rw [program]
  cases run : statements (evaluate setting) frame .null p s with
  | ok v t =>
    rw [bind_of_ok run]
    rfl
  | error stop t => rw [bind_of_error run]

end Running

/-- With one level of nesting and one of evaluation, bound values are as deep as a text makes
them. -/
theorem exists_wrapped (setting : Setting) (reads : 0 < setting.limits.nesting)
    (evaluates : 0 < setting.limits.evaluation) (capacity : Option Nat) (n : Nat) :
    ∃ source name binding,
      ((Session.start setting capacity).eval source).2.machine.heap.binding? 0 name =
        some binding ∧ binding.value.depth = n := by
  obtain ⟨clean, wrapping⟩ := parse_wrappers reads n
  have first : (Session.start setting capacity).machine.heap.Wrapped 0 0 := by
    refine ⟨Nat.zero_lt_one, ⟨⟨.null, true⟩, rfl, rfl⟩, fun j later => ?_⟩
    -- every predefined name has another letter than those that follow
    obtain ⟨j, rfl⟩ : ∃ i, j = i + 1 := ⟨j - 1, by omega⟩
    have other {name : String} {c : Char} (member : c ∈ name.toList) (differs : c ≠ 'a') :
        name ≠ wrapperName (j + 1) := by
      rintro rfl
      rw [toList_wrapperName_succ] at member
      exact differs (List.eq_of_mem_replicate member)
    cases found :
      (Session.start setting capacity).machine.heap.binding? 0 (wrapperName (j + 1)) with
    | none => rfl
    | some binding =>
      refine absurd rfl (Session.forall_binding?_start
        (P := fun name _ => name ≠ wrapperName (j + 1)) ?_ ?_ ?_ ?_ ?_ setting capacity 0 _
        binding found)
      · exact other (c := 'v') (by decide) (by decide)
      · exact other (c := 'f') (by decide) (by decide)
      · exact other (c := 'n') (by decide) (by decide)
      · exact other (c := 'i') (by decide) (by decide)
      · exact other (c := 't') (by decide) (by decide)
  have last := statements_wrapping setting 0 .null wrapping evaluates first
  rw [Nat.zero_add] at last
  obtain ⟨binding, found, deep⟩ := last.value
  refine ⟨wrappers 0 n, wrapperName n, binding, ?_, deep⟩
  rw [Session.machine_eval (Session.start setting capacity) (wrappers 0 n) clean, final_program]
  exact found

/-- Limits bound the depth of bound values exactly where they leave no expression to be read, or
none to be evaluated. -/
theorem value_depth_bounded_iff (limits : Limits) :
    (∃ bound, ∀ clock capacity source i name binding,
      ((Session.start ⟨limits, clock⟩ capacity).eval source).2.machine.heap.binding? i name =
        some binding → binding.value.depth ≤ bound) ↔
      limits.nesting = 0 ∨ limits.evaluation = 0 := by
  constructor
  · rintro ⟨bound, low⟩
    by_contra some_level
    obtain ⟨source, name, binding, found, deep⟩ := exists_wrapped ⟨limits, fun _ => 0⟩
      (Nat.pos_of_ne_zero fun none => some_level (.inl none))
      (Nat.pos_of_ne_zero fun none => some_level (.inr none)) none (bound + 1)
    have shallow := low _ _ source 0 name binding found
    omega
  · intro idle
    refine ⟨0, fun clock capacity source i name binding found => Nat.le_of_eq ?_⟩
    exact Session.flat_eval (Session.flat_start ⟨limits, clock⟩ capacity) source idle i name binding
      found

/-- The default limits bound no depth of bound values. -/
theorem value_depth_unbounded :
    ¬ ∀ limits : Limits, ∃ bound, ∀ clock capacity source i name binding,
    ((Session.start ⟨limits, clock⟩ capacity).eval source).2.machine.heap.binding? i name =
      some binding → binding.value.depth ≤ bound := by
  intro bounded
  obtain ⟨bound, low⟩ := bounded {}
  obtain ⟨source, name, binding, found, deep⟩ := exists_wrapped ⟨{}, fun _ => 0⟩
    (by decide) (by decide) none (bound + 1)
  have shallow := low _ _ source 0 name binding found
  omega

end Guion
