import Guion.Proofs.Scope.Growth

/-!
# Locals

What is declared in a block or in a call stays there (`locals_never_leak`).  An expression leaves
every frame that was there with the same names and the same constants.  Statements that are
evaluated in a frame give it the names that they declare, if they were executed successfully
(`executed`), and give other frames none.
-/

set_option autoImplicit false

namespace Guion

open Run Bounded

/-- The name that a statement declares in its frame. -/
def Statement.declared? : Statement → Option String
  | .declaration _ name _ _ => some name.name
  | .function _ name _ _ => some name.name
  | .result _ _ => none
  | .expression _ _ => none

/-- The statements of a sequence that are executed successfully, from the machine `s`: those up to
the first that fails, or up to the one that yields a signal. -/
def executed (eval : Evaluator) (frame : FrameId) : List Statement → Machine → List Statement
  | [], _ => []
  | first :: rest, s =>
    match statement eval frame first s with
    | .ok (.returned _) _ => [first]
    | .ok _ t => first :: executed eval frame rest t
    | .error _ _ => []

/-! ## Names gained -/

/-- The frame got the names `added`, none of which it had. -/
structure Gains (frame : FrameId) (added : Set String) (s t : Machine) : Prop where
  names : t.heap.names frame = s.heap.names frame ∪ added
  new : ∀ name ∈ added, name ∉ s.heap.names frame

theorem Gains.trans {frame : FrameId} {added added' : Set String} {s t u : Machine}
    (first : Gains frame added s t) (second : Gains frame added' t u) :
    Gains frame (added ∪ added') s u where
  names := by rw [second.names, first.names, Set.union_assoc]
  new := by
    rintro name (early | late) bound
    · exact first.new name early bound
    · apply second.new name late
      rw [first.names]
      exact .inl bound

/-- No frame that was there got a name. -/
def Machine.Quiet (s t : Machine) : Prop := s.heap.Grows (fun _ => False) t.heap

theorem Machine.Quiet.gains {frame : FrameId} {s t : Machine} (quiet : s.Quiet t)
    (old : frame < s.heap.size) : Gains frame ∅ s t where
  names := by rw [quiet.names_eq old id, Set.union_empty]
  new _ none := none.elim

theorem gains_declare {frame : FrameId} {name : String} {value v : Value} {constant : Bool}
    {s t : Machine} (old : frame < s.heap.size)
    (done : Run.declare frame name value constant s = .ok v t) :
    Gains frame {query | some name = some query} s t := by
  rw [Run.declare] at done
  cases declared : s.heap.declare frame name value constant with
  | error e =>
    rw [declared] at done
    cases done
  | ok k =>
    rw [declared] at done
    cases done
    obtain ⟨free, rfl⟩ := Heap.declare_eq_ok declared
    constructor
    · ext query
      simp only [Heap.names, Heap.binding?_bind, Set.mem_ofPred_eq, Set.mem_union, old, true_and,
        Option.some.injEq]
      by_cases same : query = name
      · simp [same]
      · simp [same, Ne.symm same]
    · rintro _ ⟨⟩
      exact Heap.not_mem_names.2 free

/-- A declaration that fails leaves the machine as it is. -/
theorem eq_of_declare_error {frame : FrameId} {name : String} {value : Value} {constant : Bool}
    {s t : Machine} {stop : Stop RuntimeError}
    (failed : Run.declare frame name value constant s = .error stop t) : t = s := by
  rw [Run.declare] at failed
  split at failed <;> cases failed
  rfl

/-! ## Statements -/

instance keeps_quiet_evaluate (setting : Setting) (e : Expression) (frame : FrameId) :
    Keeps Machine.Quiet (evaluate setting e frame) :=
  ⟨grows_evaluate setting e frame⟩

instance keeps_quiet_optional (setting : Setting) (frame : FrameId) (value : Option Expression) :
    Keeps Machine.Quiet (optional (evaluate setting) frame value) := by
  cases value with
  | none => exact ⟨fun s => .refl s.heap⟩
  | some e => exact keeps_quiet_evaluate setting e frame

instance keeps_quiet_closure (frame : FrameId) (name : Option String)
    (parameters : List Identifier) (body : Block) :
    Keeps Machine.Quiet (closure frame name parameters body) :=
  ⟨fun s => .refl s.heap⟩

section Declaring

variable {p : Run Value} [Keeps Machine.Quiet p] {frame : FrameId} {name : String}
  {constant : Bool} {s t : Machine} (old : frame < s.heap.size)

include old

/-- A value is computed, which gives no names to old frames, and then bound. -/
theorem gains_of_declared {v : Value}
    (h : (p >>= fun value => declare frame name value constant) s = .ok v t) :
    Gains frame {query | some name = some query} s t := by
  obtain ⟨value, u, first, second⟩ := bind_eq_ok_iff.1 h
  have quiet : s.Quiet u := Keeps.ok first
  have bound := gains_declare (Nat.lt_of_lt_of_le old quiet.size) second
  have both := (quiet.gains old).trans bound
  rwa [Set.empty_union] at both

theorem gains_of_not_declared {stop : Stop RuntimeError}
    (h : (p >>= fun value => declare frame name value constant) s = .error stop t) :
    Gains frame ∅ s t := by
  rcases bind_eq_error_iff.1 h with first | ⟨value, u, first, second⟩
  · have quiet : s.Quiet t := Keeps.error first
    exact quiet.gains old
  · have quiet : s.Quiet u := Keeps.ok first
    rw [eq_of_declare_error second]
    exact quiet.gains old

end Declaring

section Statements

variable {setting : Setting} {frame : FrameId} {s t : Machine} (old : frame < s.heap.size)

include old

/-- A statement that is executed gives its frame the name that it declares. -/
theorem gains_of_statement_ok {st : Statement} {v : Value}
    (h : statement (evaluate setting) frame st s = .ok v t) :
    Gains frame {name | st.declared? = some name} s t := by
  cases st with
  | expression _ e =>
    have quiet : s.Quiet t := Keeps.ok (p := evaluate setting e frame) h
    simpa [Statement.declared?] using quiet.gains old
  | declaration _ name value constant => exact gains_of_declared old h
  | function _ name parameters body => exact gains_of_declared old h
  | result _ value =>
    obtain ⟨value, u, first, second⟩ := bind_eq_ok_iff.1 h
    cases second
    have quiet : s.Quiet t := Keeps.ok first
    simpa [Statement.declared?] using quiet.gains old

/-- A statement that fails gives its frame nothing. -/
theorem gains_of_statement_error {st : Statement} {stop : Stop RuntimeError}
    (h : statement (evaluate setting) frame st s = .error stop t) : Gains frame ∅ s t := by
  cases st with
  | expression _ e =>
    have quiet : s.Quiet t := Keeps.error (p := evaluate setting e frame) h
    exact quiet.gains old
  | declaration _ name value constant => exact gains_of_not_declared old h
  | function _ name parameters body => exact gains_of_not_declared old h
  | result _ value =>
    rcases bind_eq_error_iff.1 h with first | ⟨value, u, first, second⟩
    · have quiet : s.Quiet t := Keeps.error first
      exact quiet.gains old
    · cases second

theorem old_of_statement_ok {st : Statement} {v : Value}
    (h : statement (evaluate setting) frame st s = .ok v t) : frame < t.heap.size := by
  have grown := grows_phrase setting frame (.statement st) s
  rw [Phrase.run, h] at grown
  exact Nat.lt_of_lt_of_le old grown.size

end Statements

/-- The names that the statements executed of a sequence declare. -/
def declaredNames (eval : Evaluator) (frame : FrameId) (ss : List Statement) (s : Machine) :
    Set String :=
  {name | ∃ st ∈ executed eval frame ss s, st.declared? = some name}

/-- A sequence of statements gives its frame the names that those executed declare. -/
theorem gains_statements (setting : Setting) {frame : FrameId} (last : Value)
    (ss : List Statement) {s : Machine} (old : frame < s.heap.size) :
    Gains frame (declaredNames (evaluate setting) frame ss s) s
      (final (statements (evaluate setting) frame last ss s)) := by
  induction ss generalizing last s with
  | nil =>
    have names : declaredNames (evaluate setting) frame [] s = ∅ := by
      simp [declaredNames, executed]
    rw [names]
    exact Machine.Quiet.gains (.refl s.heap) old
  | cons st rest ih =>
    cases run : statement (evaluate setting) frame st s with
    | error stop t =>
      have names : declaredNames (evaluate setting) frame (st :: rest) s = ∅ := by
        simp [declaredNames, executed, run]
      rw [statements, bind_of_error run, names]
      exact gains_of_statement_error old run
    | ok value t =>
      have gained := gains_of_statement_ok old run
      rw [statements, bind_of_ok run]
      cases value with
      -- a signal ends the sequence with this statement
      | returned value =>
        have names : declaredNames (evaluate setting) frame (st :: rest) s =
            {name | st.declared? = some name} := by
          simp [declaredNames, executed, run]
        rw [names]
        exact gained
      | _ =>
        have names : declaredNames (evaluate setting) frame (st :: rest) s =
            {name | st.declared? = some name} ∪
              declaredNames (evaluate setting) frame rest t := by
          simp [declaredNames, executed, run, Set.ofPred_or]
        rw [names]
        exact gained.trans (ih _ (old_of_statement_ok old run))

/-! ## Frames that were there -/

/-- The frame at `i` has the same names and the same constants, with the same values; only values of
its variables may differ. -/
structure Heap.KeepsNames (h h' : Heap) (i : FrameId) : Prop where
  names : h'.names i = h.names i
  constants : h'.constants i = h.constants i
  values : ∀ name ∈ h.constants i, h'.binding? i name = h.binding? i name

theorem Heap.Grows.keepsNames {opened : FrameId → Prop} {h h' : Heap} (grown : h.Grows opened h')
    {i : FrameId} (old : i < h.size) (closed : ¬ opened i) : h.KeepsNames h' i where
  names := grown.names_eq old closed
  constants := grown.constants_eq old closed
  values _ constant := grown.binding?_eq_of_constant old closed constant

/-- Locals never leak.  Evaluating an expression leaves every frame that was there with its names
and its constants.  Evaluating statements in a frame does so for every other frame that was there,
and gives the frame itself exactly the names that the statements executed declare. -/
theorem locals_never_leak (setting : Setting) (frame : FrameId) (s : Machine) :
    (∀ e, ∀ i < s.heap.size,
      s.heap.KeepsNames (final (evaluate setting e frame s)).heap i) ∧
      ∀ last ss,
        let t := final (statements (evaluate setting) frame last ss s)
        (∀ i < s.heap.size, i ≠ frame → s.heap.KeepsNames t.heap i) ∧
          (frame < s.heap.size → s.heap.names frame ⊆ t.heap.names frame ∧
            ∀ name, name ∈ t.heap.names frame ∧ name ∉ s.heap.names frame ↔
              ∃ st ∈ executed (evaluate setting) frame ss s, st.declared? = some name) := by
  refine ⟨fun e i old => ?_, fun last ss => ⟨fun i old other => ?_, fun old => ?_⟩⟩
  · exact (grows_evaluate setting e frame s).keepsNames old id
  · exact (grows_statements setting frame last ss s).keepsNames old other
  · have gained := gains_statements setting last ss old
    refine ⟨(grows_statements setting frame last ss s).names_subset, fun name => ?_⟩
    rw [gained.names]
    constructor
    · rintro ⟨before | added, missing⟩
      · exact absurd before missing
      · exact added
    · intro added
      exact ⟨.inr added, gained.new name added⟩

/-- `var x; func() { var y; }();`. -/
def withLocal : List Statement :=
  let declares (name : String) : Statement := .declaration default ⟨default, name⟩ none false
  [declares "x",
    .expression default (.call default (.function default [] (.mk default [declares "y"])) [])]

theorem locals_never_leak_withLocal :
    let setting : Setting := ⟨{}, fun _ => 0⟩
    let t := final (statements (evaluate setting) 0 .null withLocal .oneFrame)
    0 < Machine.oneFrame.heap.size ∧ "x" ∈ t.heap.names 0 ∧ "y" ∉ t.heap.names 0 := by
  intro setting t
  have there : 0 < Machine.oneFrame.heap.size := by decide
  have gained := (((locals_never_leak setting 0 .oneFrame).2 .null withLocal).2 there).2
  have both : executed (evaluate setting) 0 withLocal .oneFrame = withLocal := by rfl
  rw [both] at gained
  refine ⟨there, ((gained "x").2 ⟨_, List.mem_cons_self, rfl⟩).1, fun leaked => ?_⟩
  have unbound : "y" ∉ Machine.oneFrame.heap.names 0 := Heap.not_mem_names.2 rfl
  obtain ⟨st, known, declared⟩ := (gained "y").1 ⟨leaked, unbound⟩
  have never : ∀ st ∈ withLocal, st.declared? ≠ some "y" := by
    simp [withLocal, Statement.declared?]
  exact never st known declared

end Guion
