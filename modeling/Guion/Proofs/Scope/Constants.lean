import Guion.Proofs.Scope.Growth
import Guion.Proofs.Session

/-!
# Constants

Whatever is done with a machine, its frames only grow and its constants never change
(`constants_last`): every frame keeps its parent and its names, a constant stays one and keeps its
value, and a variable never becomes a constant.  So the predefined names have their values for the
whole of a session.

This is so where the two tables of each frame are in step, as they are in a frame without bindings
and in one made of constants.  Everything that is done keeps them in step, in old frames and new.
-/

set_option autoImplicit false

namespace Guion

open Run Bounded

/-! ## Operations on a machine -/

/-- What can be done with a machine: to evaluate a phrase in one of its frames, under any setting,
and to declare a name there or assign to one. -/
inductive Operation where
  | evaluate (setting : Setting) (frame : FrameId) (phrase : Phrase)
  | declare (frame : FrameId) (name : String) (value : Value) (constant : Bool)
  | assign (frame : FrameId) (name : String) (value : Value)

/-- The steps of an operation. -/
def Operation.run : Operation → Run Value
  | .evaluate setting frame phrase => phrase.run setting frame
  | .declare frame name value constant => Run.declare frame name value constant
  | .assign frame name value => Run.assign frame name value

/-- The machine after operations in turn, whatever became of each. -/
def Machine.perform (s : Machine) : List Operation → Machine
  | [] => s
  | operation :: rest => (operation.run.outcome s).2.perform rest

/-- The heap grows, in whichever frames. -/
def Machine.Grows (s t : Machine) : Prop := s.heap.Grows (fun _ => True) t.heap

instance : IsPreorder Machine Machine.Grows where
  refl s := Heap.Grows.refl s.heap
  trans _ _ _ first second := Heap.Grows.trans first second

theorem Operation.grows (operation : Operation) (s : Machine) :
    s.Grows (operation.run.outcome s).2 := by
  rw [outcome_snd]
  cases operation with
  | evaluate setting frame phrase =>
    exact (grows_phrase setting frame phrase s).mono fun _ _ => trivial
  | declare frame name value constant =>
    simp only [run, Run.declare]
    cases done : s.heap.declare frame name value constant with
    | ok k => exact (Heap.Grows.refl s.heap).declare (.inl trivial) done
    | error e => exact Heap.Grows.refl s.heap
  | assign frame name value =>
    simp only [run, Run.assign]
    cases done : s.heap.assign frame name value with
    | ok k => exact Heap.Grows.assign done
    | error e => exact Heap.Grows.refl s.heap

theorem Machine.grows_perform (s : Machine) (operations : List Operation) :
    s.Grows (s.perform operations) := by
  induction operations generalizing s with
  | nil => exact Heap.Grows.refl s.heap
  | cons operation rest ih => exact Heap.Grows.trans (operation.grows s) (ih _)

/-! ## Sessions -/

theorem keeps_grows (setting : Setting) (frame : FrameId) (p : Program) :
    Keeps Machine.Grows (program setting frame p) :=
  ⟨fun s => (grows_phrase setting frame (.program p) s).mono fun _ _ => trivial⟩

/-- A name bound in the frame itself is seen there. -/
theorem Heap.lookup_of_binding? {h : Heap} {i : FrameId} {name : String} {binding : Binding}
    (found : h.binding? i name = some binding) : h.lookup i name = .ok binding.value := by
  obtain ⟨rest, chain⟩ := h.chain_eq_cons i
  rw [lookup, chain, List.findSome?_cons, (binding?_eq_some.1 found).1]

/-- A first frame made of constants. -/
theorem Heap.inStep_ofConstants (constants : List (String × Value)) :
    (empty.push (.ofConstants constants)).InStep := by
  intro i name (mark : (empty.push (.ofConstants constants)).marks i name = true)
  obtain ⟨frame, there, marks⟩ := (Option.any_eq_true _ _).1 mark
  rw [frame?_push] at there
  split at there
  · cases there
    rename_i here
    rw [Frame.marks_ofConstants] at marks
    obtain ⟨value, bound⟩ := Option.isSome_iff_exists.1 marks
    refine ⟨⟨value, _⟩, binding?_eq_some.2 ⟨?_, rfl⟩⟩
    rw [value?, frame?_push, if_pos here]
    exact bound
  · cases there

/-- What a new session knows is a constant of its global frame. -/
theorem Session.constant_of_lookup_start {setting : Setting} {capacity : Option Nat}
    {name : String} {value : Value} (known : (start setting capacity).lookup name = .ok value) :
    (start setting capacity).machine.heap.binding? 0 name = some ⟨value, true⟩ := by
  have only : (start setting capacity).machine.heap.chain 0 = [0] := by
    rw [Heap.chain]
    rfl
  unfold Session.lookup Heap.lookup at known
  rw [show (start setting capacity).globals = 0 from rfl, only] at known
  cases found : (start setting capacity).machine.heap.value? 0 name with
  | none => simp [found] at known
  | some bound =>
    simp only [List.findSome?_cons, found, Except.ok.injEq] at known
    refine Heap.binding?_eq_some.2 ⟨known ▸ found, ?_⟩
    -- the global frame is made of constants, so it marks what it binds
    have marked : Frame.predefined.marks name = (Frame.predefined.value? name).isSome :=
      Frame.marks_ofConstants _ name
    exact marked.trans (congrArg Option.isSome found)

theorem Session.lookup_after_start {setting : Setting} {capacity : Option Nat} {name : String}
    {value : Value} (known : (start setting capacity).lookup name = .ok value)
    (sources : List String) : ((start setting capacity).after sources).lookup name = .ok value := by
  have along := along_after keeps_grows (start setting capacity) sources
  have found := constant_of_lookup_start known
  have same := along.machine.binding?_of_constant ⟨_, found⟩ (Heap.binding?_eq_some.1 found).2
  rw [Session.lookup, along.globals]
  exact Heap.lookup_of_binding? (same.trans found)

/-! ## All operations -/

/-- What lasts of the frame at `i`: its parent, its names, its constants with their values, and that
its variables are not constants. -/
structure Heap.Lasts (h h' : Heap) (i : FrameId) : Prop where
  parent : (h'.frame? i).map Frame.parent = (h.frame? i).map Frame.parent
  names : h.names i ⊆ h'.names i
  constants : ∀ name ∈ h.constants i,
    name ∈ h'.constants i ∧ h'.binding? i name = h.binding? i name
  nonconstants : ∀ name ∈ h.names i, name ∉ h.constants i → name ∉ h'.constants i

theorem Heap.Grows.lasts {opened : FrameId → Prop} {h h' : Heap} (grown : h.Grows opened h')
    (inStep : h.InStep) {i : FrameId} (old : i < h.size) : h.Lasts h' i where
  parent := grown.parent i old
  names := grown.names_subset
  constants _ constant :=
    ⟨grown.marked constant, grown.binding?_of_constant (inStep i constant) constant⟩
  nonconstants _ bound free := mt (grown.mem_constants_iff bound).1 free

/-- Constants never change and frames only grow.  Take any heap in which the tables of each frame
are in step, and any sequence of operations, failed ones included.  Every frame that was there has
its parent, its names and its constants with their values, and none of its variables is a constant;
and the tables of every frame, old or new, are in step.  In a session they always are, and the names
known at the start keep their values. -/
theorem constants_last :
    (∀ (s : Machine) (operations : List Operation), s.heap.InStep →
      s.heap.size ≤ (s.perform operations).heap.size ∧
        (∀ i < s.heap.size, s.heap.Lasts (s.perform operations).heap i) ∧
        (s.perform operations).heap.InStep) ∧
      ∀ (setting : Setting) (capacity : Option Nat) (sources : List String),
        ((Session.start setting capacity).after sources).machine.heap.InStep ∧
          ∀ (name : String) (value : Value),
            (Session.start setting capacity).lookup name = .ok value →
              ((Session.start setting capacity).after sources).lookup name = .ok value := by
  constructor
  · intro s operations inStep
    have grown := s.grows_perform operations
    exact ⟨grown.size, fun i old => grown.lasts inStep old, grown.inStep inStep⟩
  · intro setting capacity sources
    refine ⟨?_, fun name value known => Session.lookup_after_start known sources⟩
    have along := Session.along_after keeps_grows (Session.start setting capacity) sources
    exact along.machine.inStep (Heap.inStep_ofConstants _)

/-- A program that tries to assign to a predefined name, and one that declares names of its own. -/
def redefining : List String := ["verdadero = falso", "var x = verdadero; let y = x; x = y; y = 1"]

theorem constants_last_redefining :
    let session := Session.start ⟨{}, fun _ => 0⟩ none
    let operations := redefining.map fun source =>
      .evaluate session.setting 0 (.program (parse 64 source).program)
    session.machine.heap.InStep ∧ 0 < session.machine.heap.size ∧
      session.machine.heap.Lasts (session.machine.perform operations).heap 0 ∧
      (session.machine.perform operations).heap.InStep ∧
      session.lookup "verdadero" = .ok (.boolean true) ∧
      (session.after redefining).lookup "verdadero" = .ok (.boolean true) := by
  intro session operations
  have inStep : session.machine.heap.InStep := Heap.inStep_ofConstants _
  have there : 0 < session.machine.heap.size := by decide
  have found : session.machine.heap.binding? 0 "verdadero" = some ⟨.boolean true, true⟩ := rfl
  have known : session.lookup "verdadero" = .ok (.boolean true) := Heap.lookup_of_binding? found
  obtain ⟨-, lasts, after⟩ := constants_last.1 session.machine operations inStep
  exact ⟨inStep, there, lasts 0 there, after, known,
    (constants_last.2 _ _ redefining).2 _ _ known⟩

end Guion
