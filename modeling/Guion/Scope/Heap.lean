import Guion.Table
import Guion.Value.Basic

/-!
# Frames

Bindings live in frames, and frames in a heap.  A frame sees the bindings of its own, then those
of its parent, and so on along its chain; a declaration binds in one frame only.  Parents are
older than their children, so chains end.

A frame has two tables: the values of its names, and marks for those of them that are constants.
Nothing in the frame itself keeps the two in step; that they are is a matter of what is done.
-/

set_option autoImplicit false

namespace Guion

/-- What a name is bound to, and whether it is marked as a constant. -/
structure Binding where
  value : Value
  constant : Bool

/-- One frame of bindings and the frame around it. -/
structure Frame where
  parent : Option FrameId
  bindings : Table Value
  /-- The marks of constants. -/
  constants : Table Unit

namespace Frame

/-- A frame without bindings. -/
def empty (parent : Option FrameId) : Frame := ⟨parent, [], []⟩

/-- A frame with no parent that holds only constants; of two with one name the later stays. -/
def ofConstants (constants : List (String × Value)) : Frame :=
  ⟨none, .ofList constants, .ofList (constants.map fun (name, _) => (name, ()))⟩

/-- The value of `name` in the frame itself. -/
def value? (frame : Frame) (name : String) : Option Value := frame.bindings.find? name

/-- The frame marks `name` as a constant. -/
def marks (frame : Frame) (name : String) : Bool := (frame.constants.find? name).isSome

/-- The binding of `name` in the frame itself, from both tables. -/
def find? (frame : Frame) (name : String) : Option Binding :=
  (frame.value? name).map fun value => ⟨value, frame.marks name⟩

/-- Binds `name` in the frame, and marks it if it is to be a constant.  A mark is never taken
away. -/
def bind (frame : Frame) (name : String) (binding : Binding) : Frame :=
  { frame with
    bindings := frame.bindings.insert name binding.value
    constants :=
      if binding.constant then frame.constants.insert name () else frame.constants }

theorem value?_bind (frame : Frame) (name query : String) (binding : Binding) :
    (frame.bind name binding).value? query =
      if query = name then some binding.value else frame.value? query :=
  Table.find?_insert _ _ _ _

theorem marks_bind (frame : Frame) (name query : String) (binding : Binding) :
    (frame.bind name binding).marks query =
      (binding.constant && query == name || frame.marks query) := by
  cases constant : binding.constant with
  | false => simp [marks, bind, constant]
  | true =>
    simp only [marks, bind, constant, if_true, Table.find?_insert, Bool.true_and]
    by_cases same : query = name <;> simp [same]

/-- A frame made of constants marks exactly the names that it binds. -/
theorem marks_ofConstants (constants : List (String × Value)) (name : String) :
    (ofConstants constants).marks name = ((ofConstants constants).value? name).isSome := by
  rw [Bool.eq_iff_iff, marks, value?, ofConstants, Table.isSome_find?_ofList,
    Table.isSome_find?_ofList]
  simp

/-- The frame of predefined names. -/
def predefined : Frame :=
  ofConstants
    [("verdadero", .boolean true), ("falso", .boolean false), ("nulo", .null),
     ("imprimir", .native .imprimir), ("tiempo", .native .tiempo)]

end Frame

/-- All frames, oldest first. -/
structure Heap where
  frames : Array Frame

namespace Heap

/-- The heap without frames. -/
def empty : Heap := ⟨#[]⟩

/-- The number of frames, which is also the place of the next one. -/
def size (heap : Heap) : Nat := heap.frames.size

/-- The frame at a place. -/
def frame? (heap : Heap) (i : FrameId) : Option Frame := heap.frames[i]?

/-- Adds a frame, whose place is the size before. -/
def push (heap : Heap) (frame : Frame) : Heap := ⟨heap.frames.push frame⟩

/-- The parent of a frame.  One that is not older does not count. -/
def parent? (heap : Heap) (i : FrameId) : Option { p : FrameId // p < i } :=
  (heap.frame? i).bind fun frame =>
    frame.parent.bind fun p => if h : p < i then some ⟨p, h⟩ else none

/-- The frame at `i` and those around it, nearest first. -/
def chain (heap : Heap) (i : FrameId) : List FrameId :=
  match heap.parent? i with
  | none => [i]
  | some ⟨p, _⟩ => i :: heap.chain p

/-- A chain starts with the frame itself. -/
theorem chain_eq_cons (heap : Heap) (i : FrameId) : ∃ rest, heap.chain i = i :: rest := by
  rw [chain]
  split
  · exact ⟨[], rfl⟩
  · exact ⟨_, rfl⟩

/-- The value of `name` in the frame at `i` itself. -/
def value? (heap : Heap) (i : FrameId) (name : String) : Option Value :=
  (heap.frame? i).bind fun frame => frame.value? name

/-- The frame at `i` marks `name` as a constant. -/
def marks (heap : Heap) (i : FrameId) (name : String) : Bool :=
  (heap.frame? i).any fun frame => frame.marks name

/-- The binding of `name` in the frame at `i` itself. -/
def binding? (heap : Heap) (i : FrameId) (name : String) : Option Binding :=
  (heap.frame? i).bind fun frame => frame.find? name

/-- The nearest frame on the chain of `i` that binds `name`. -/
def resolve (heap : Heap) (i : FrameId) (name : String) : Option FrameId :=
  (heap.chain i).find? fun j => (heap.value? j name).isSome

/-- The value of `name` as seen from the frame at `i`. -/
def lookup (heap : Heap) (i : FrameId) (name : String) : Except RuntimeError Value :=
  match (heap.chain i).findSome? fun j => heap.value? j name with
  | some value => .ok value
  | none => .error (.unresolvedName name)

/-- Binds `name` in the frame at `i`. -/
def bind (heap : Heap) (i : FrameId) (name : String) (binding : Binding) : Heap :=
  ⟨heap.frames.modify i fun frame => frame.bind name binding⟩

@[simp] theorem size_push (heap : Heap) (frame : Frame) : (heap.push frame).size = heap.size + 1 :=
  Array.size_push frame

@[simp] theorem size_bind (heap : Heap) (i : FrameId) (name : String) (binding : Binding) :
    (heap.bind i name binding).size = heap.size :=
  Array.size_modify

theorem frame?_push (heap : Heap) (frame : Frame) (i : FrameId) :
    (heap.push frame).frame? i = if i = heap.size then some frame else heap.frame? i :=
  Array.getElem?_push

theorem frame?_bind (heap : Heap) (i j : FrameId) (name : String) (binding : Binding) :
    (heap.bind i name binding).frame? j =
      if i = j then (heap.frame? j).map fun frame => frame.bind name binding
      else heap.frame? j :=
  Array.getElem?_modify

theorem lt_size_of_frame? {heap : Heap} {i : FrameId} {frame : Frame}
    (found : heap.frame? i = some frame) : i < heap.size := by
  obtain ⟨inside, -⟩ := Array.getElem?_eq_some_iff.1 found
  exact inside

theorem frame?_eq_none {heap : Heap} {i : FrameId} (outside : heap.size ≤ i) :
    heap.frame? i = none :=
  Array.getElem?_eq_none outside

theorem binding?_eq_map (heap : Heap) (i : FrameId) (name : String) :
    heap.binding? i name = (heap.value? i name).map fun value => ⟨value, heap.marks i name⟩ := by
  rw [binding?, value?, marks]
  cases heap.frame? i <;> rfl

/-- What is known of a bound name is its value and its mark. -/
theorem binding?_eq_some {heap : Heap} {i : FrameId} {name : String} {binding : Binding} :
    heap.binding? i name = some binding ↔
      heap.value? i name = some binding.value ∧ heap.marks i name = binding.constant := by
  rw [binding?_eq_map, Option.map_eq_some_iff]
  constructor
  · rintro ⟨value, found, rfl⟩
    exact ⟨found, rfl⟩
  · rintro ⟨found, mark⟩
    exact ⟨_, found, by rw [mark]⟩

@[simp] theorem value?_eq_none {heap : Heap} {i : FrameId} {name : String} :
    heap.value? i name = none ↔ heap.binding? i name = none := by
  rw [binding?_eq_map, Option.map_eq_none_iff]

@[simp] theorem isSome_value? (heap : Heap) (i : FrameId) (name : String) :
    (heap.value? i name).isSome = (heap.binding? i name).isSome := by
  rw [binding?_eq_map, Option.isSome_map]

/-- What is seen of a name is bound in some frame on the chain. -/
theorem exists_binding?_of_lookup {heap : Heap} {i : FrameId} {name : String} {value : Value}
    (seen : heap.lookup i name = .ok value) : ∃ j ∈ heap.chain i, ∃ constant,
      heap.binding? j name = some ⟨value, constant⟩ := by
  unfold lookup at seen
  split at seen <;> cases seen
  rename_i found
  obtain ⟨j, listed, there⟩ := List.exists_of_findSome?_eq_some found
  exact ⟨j, listed, _, binding?_eq_some.2 ⟨there, rfl⟩⟩

theorem lt_size_of_binding? {heap : Heap} {i : FrameId} {name : String} {binding : Binding}
    (found : heap.binding? i name = some binding) : i < heap.size := by
  obtain ⟨frame, there, -⟩ := Option.bind_eq_some_iff.1 found
  exact lt_size_of_frame? there

/-- Binding a name in a frame changes that name in that frame only. -/
theorem value?_bind (heap : Heap) (i j : FrameId) (name query : String) (binding : Binding) :
    (heap.bind i name binding).value? j query =
      if j = i ∧ i < heap.size ∧ query = name then some binding.value else heap.value? j query := by
  simp only [value?, bind, frame?, size, Array.getElem?_modify]
  by_cases place : i = j
  · subst place
    rcases Nat.lt_or_ge i heap.frames.size with inside | outside
    · simp [inside, Frame.value?_bind]
    · simp [Nat.not_lt.2 outside]
  · simp [place, Ne.symm place]

/-- Binding a name marks it in that frame if it is to be a constant, and marks no other. -/
theorem marks_bind (heap : Heap) (i j : FrameId) (name query : String) (binding : Binding) :
    (heap.bind i name binding).marks j query =
      if j = i ∧ i < heap.size ∧ query = name then binding.constant || heap.marks i name
      else heap.marks j query := by
  simp only [marks, bind, frame?, size, Array.getElem?_modify]
  by_cases place : i = j
  · subst place
    rcases Nat.lt_or_ge i heap.frames.size with inside | outside
    · by_cases same : query = name <;> simp [inside, same, Frame.marks_bind]
    · simp [Nat.not_lt.2 outside]
  · simp [place, Ne.symm place]

/-- Giving a variable a value marks nothing. -/
theorem marks_bind_variable (heap : Heap) (i j : FrameId) (name query : String) (value : Value) :
    (heap.bind i name ⟨value, false⟩).marks j query = heap.marks j query := by
  rw [marks_bind]
  split
  · rename_i same
    obtain ⟨rfl, -, rfl⟩ := same
    rfl
  · rfl

theorem binding?_bind (heap : Heap) (i j : FrameId) (name query : String) (binding : Binding) :
    (heap.bind i name binding).binding? j query =
      if j = i ∧ i < heap.size ∧ query = name then
        some ⟨binding.value, binding.constant || heap.marks i name⟩
      else heap.binding? j query := by
  simp only [binding?_eq_map, value?_bind, marks_bind]
  split <;> rfl

/-- Binding a name in a frame leaves the chains as they are. -/
theorem parent?_bind (heap : Heap) (i j : FrameId) (name : String) (binding : Binding) :
    (heap.bind i name binding).parent? j = heap.parent? j := by
  simp only [parent?, bind, frame?, Array.getElem?_modify]
  by_cases place : i = j
  · subst place
    cases heap.frames[i]? <;> simp [Frame.bind]
  · simp [place]

/-- Declares `name` in the frame at `i`, which may not bind it yet. -/
@[inline] def declare (heap : Heap) (i : FrameId) (name : String) (value : Value)
    (constant : Bool) : Except RuntimeError Heap :=
  match heap.value? i name with
  | some _ => .error (.duplicateBinding name)
  | none => .ok (heap.bind i name ⟨value, constant⟩)

/-- Gives `name` a new value where it is bound, unless it is a constant. -/
@[inline] def assign (heap : Heap) (i : FrameId) (name : String) (value : Value) :
    Except RuntimeError Heap :=
  match heap.resolve i name with
  | none => .error (.unresolvedName name)
  | some j =>
    if heap.marks j name then .error (.constantAssignment name)
    else .ok (heap.bind j name ⟨value, false⟩)

end Heap

end Guion
