import Guion.Evaluation.Operators
import Guion.Proofs.Program.Places

/-!
# Values and heaps at other places

A function carries its body, and with it the places where the tokens of the body stand in the source
text.  `move` puts the bodies of all functions in a value, in a heap or in a machine at other
places.  Nothing that is done with values and frames looks at these places: equality, texts and
properties stay the same, and what is found, declared or assigned in the moved heap is what is
found, declared or assigned in the heap, moved.
-/

set_option autoImplicit false

namespace Guion

open Movable

instance : Movable Nat := ⟨fun _ => id⟩

instance : Movable Int := ⟨fun _ => id⟩

instance : Movable String := ⟨fun _ => id⟩

/-- The function with its body at another place. -/
def Closure.move (g : Position → Position) (f : Closure) : Closure :=
  { f with body := f.body.move g }

mutual

/-- The value with the bodies of functions at another place. -/
def Value.move (g : Position → Position) : Value → Value
  | .null => .null
  | .boolean value => .boolean value
  | .number value => .number value
  | .string value => .string value
  | .object identity properties => .object identity (Value.moveAll g properties)
  | .function closure => .function (closure.move g)
  | .native f => .native f
  | .returned value => .returned (value.move g)
  | .error cause => .error cause

/-- Each property with the bodies of functions at another place. -/
def Value.moveAll (g : Position → Position) : List (String × Value) → List (String × Value)
  | [] => []
  | (key, value) :: rest => (key, value.move g) :: Value.moveAll g rest

end

instance : Movable Value := ⟨Value.move⟩

/-- The frame at another place. -/
def Frame.move (g : Position → Position) (frame : Frame) : Frame :=
  { frame with bindings := Movable.move g frame.bindings }

/-- The heap at another place. -/
def Heap.move (g : Position → Position) (heap : Heap) : Heap := ⟨heap.frames.map (Frame.move g)⟩

/-- The machine with the bodies of all its functions at another place. -/
def Machine.move (g : Position → Position) (s : Machine) : Machine :=
  { s with heap := s.heap.move g }

instance : Movable Machine := ⟨Machine.move⟩

variable (g : Position → Position)

theorem Value.moveAll_eq (ps : List (String × Value)) : Value.moveAll g ps = Movable.move g ps := by
  induction ps with
  | nil => rfl
  | cons p ps ih => exact congrArg (_ :: ·) ih

section Laws

instance : LawfulMovable String := ⟨fun _ => rfl, fun _ _ _ => rfl⟩

theorem Closure.move_id (f : Closure) : f.move id = f := by
  rw [Closure.move, Block.move_id]

theorem Closure.move_move (g h : Position → Position) (f : Closure) :
    (f.move g).move h = f.move (h ∘ g) := by
  simp only [Closure.move, Block.move_move]

mutual

theorem Value.move_id : ∀ v : Value, v.move id = v
  | .object _ ps => by rw [Value.move, Value.moveAll_id ps]
  | .function f => by rw [Value.move, f.move_id]
  | .returned v => by rw [Value.move, Value.move_id v]
  | .null | .boolean _ | .number _ | .string _ | .native _ | .error _ => rfl

theorem Value.moveAll_id : ∀ ps : List (String × Value), Value.moveAll id ps = ps
  | [] => rfl
  | (_, v) :: ps => by rw [Value.moveAll, Value.move_id v, Value.moveAll_id ps]

end

mutual

theorem Value.move_move (g h : Position → Position) : ∀ v : Value,
    (v.move g).move h = v.move (h ∘ g)
  | .object _ ps => by simp only [Value.move, Value.moveAll_moveAll g h ps]
  | .function f => by simp only [Value.move, f.move_move]
  | .returned v => by simp only [Value.move, Value.move_move g h v]
  | .null | .boolean _ | .number _ | .string _ | .native _ | .error _ => rfl

theorem Value.moveAll_moveAll (g h : Position → Position) : ∀ ps : List (String × Value),
    Value.moveAll h (Value.moveAll g ps) = Value.moveAll (h ∘ g) ps
  | [] => rfl
  | (_, v) :: ps => by
    simp only [Value.moveAll, Value.move_move g h v, Value.moveAll_moveAll g h ps]

end

instance : LawfulMovable Value := ⟨Value.move_id, Value.move_move⟩

theorem Frame.move_id (frame : Frame) : frame.move id = frame :=
  congrArg (Frame.mk frame.parent · frame.constants) (LawfulMovable.move_id frame.bindings)

theorem Frame.move_move (g h : Position → Position) (frame : Frame) :
    (frame.move g).move h = frame.move (h ∘ g) :=
  congrArg (Frame.mk frame.parent · frame.constants)
    (LawfulMovable.move_move g h frame.bindings)

theorem Machine.move_id (s : Machine) : s.move id = s := by
  have frames : s.heap.frames.map (Frame.move id) = s.heap.frames := by
    rw [funext Frame.move_id]
    exact Array.map_id _
  rw [Machine.move, Heap.move, frames]

theorem Machine.move_move (g h : Position → Position) (s : Machine) :
    (s.move g).move h = s.move (h ∘ g) := by
  have frames : (s.heap.frames.map (Frame.move g)).map (Frame.move h) =
      s.heap.frames.map (Frame.move (h ∘ g)) := by
    rw [Array.map_map]
    exact Array.map_congr_left fun frame _ => frame.move_move g h
  simp only [Machine.move, Heap.move, frames]

end Laws

/-! ## Tables -/

namespace Table

variable {α : Type} [Movable α]

theorem find?_move (key : String) (table : Table α) :
    find? key (Movable.move g table) = Movable.move g (find? key table) := by
  induction table with
  | nil => rfl
  | cons entry rest ih =>
    obtain ⟨k, v⟩ := entry
    show (if key = k then _ else find? key (Movable.move g rest)) =
      Movable.move g (if key = k then some v else find? key rest)
    split
    · rfl
    · exact ih

theorem insert_move (key : String) (value : α) (table : Table α) :
    insert key (Movable.move g value) (Movable.move g table) =
      Movable.move g (insert key value table) := by
  induction table with
  | nil => rfl
  | cons entry rest ih =>
    obtain ⟨k, v⟩ := entry
    show (if key < k then _ else if key = k then _ else
        (k, Movable.move g v) :: insert key _ (Movable.move g rest)) =
      Movable.move g (if key < k then _ else if key = k then _ else (k, v) :: insert key value rest)
    split
    · rfl
    · split
      · rfl
      · rw [ih]
        rfl

theorem ofList_move (entries : List (String × α)) :
    ofList (Movable.move g entries) = Movable.move g (ofList entries) := by
  have onto (table : Table α) :
      (Movable.move g entries).foldl (fun table entry => insert entry.1 entry.2 table)
          (Movable.move g table) =
        Movable.move g
          (entries.foldl (fun table entry => insert entry.1 entry.2 table) table) := by
    induction entries generalizing table with
    | nil => rfl
    | cons entry rest ih =>
      obtain ⟨key, value⟩ := entry
      show (Movable.move g rest).foldl _ (insert key (Movable.move g value) _) = _
      rw [insert_move, ih]
      rfl
  exact onto []

end Table

/-! ## Values -/

namespace Value

variable {g}

theorem unwrapped_move (v : Value) : (v.move g).unwrapped = v.unwrapped.move g := by
  cases v <;> rfl

theorem key_move (v : Value) : (v.move g).key = v.key := by
  cases v <;> rfl

mutual

/-- Functions are told apart by their identity, so equality does not depend on their bodies. -/
theorem equals_move : ∀ v w : Value, (v.move g).equals (w.move g) = v.equals w
  | .object i ps, w => by
    cases w with
    | object j qs => simp only [move, equals, equalsAll_moveAll ps qs]
    | _ => rfl
  | .returned v, w => by
    cases w with
    | returned w => exact equals_move v w
    | _ => rfl
  | .null, w | .boolean _, w | .number _, w | .string _, w | .function _, w | .native _, w
  | .error _, w => by cases w <;> rfl

theorem equalsAll_moveAll : ∀ ps qs : List (String × Value),
    equalsAll (moveAll g ps) (moveAll g qs) = equalsAll ps qs
  | [], qs => by cases qs <;> rfl
  | (k, v) :: ps, qs => by
    cases qs with
    | nil => rfl
    | cons q qs =>
      obtain ⟨l, w⟩ := q
      simp only [moveAll, equalsAll, equals_move v w, equalsAll_moveAll ps qs]

end

mutual

/-- A function is rendered by its name and parameters. -/
theorem render_move : ∀ v : Value, (v.move g).render = v.render
  | .object _ ps => by simp only [move, render, renderAll_moveAll ps]
  | .returned v => render_move v
  | .null | .boolean _ | .number _ | .string _ | .function _ | .native _ | .error _ => rfl

theorem renderAll_moveAll : ∀ ps : List (String × Value), renderAll (moveAll g ps) = renderAll ps
  | [] => rfl
  | (key, v) :: ps => by
    have here := render_move v
    have others := renderAll_moveAll ps
    -- inside an object a string is quoted, and all else is rendered as it is
    cases v with
    | string text => simp only [moveAll, move, renderAll, others]
    | _ => simp only [moveAll, move, renderAll, others] at here ⊢ <;> rw [here]

end

theorem member_move (key : String) (v : Value) :
    (v.move g).member key = (v.member key).map (Value.move g) := by
  cases v with
  | object _ ps =>
    show Except.ok ((Table.find? key (moveAll g ps)).getD .null) = _
    rw [moveAll_eq, Table.find?_move]
    show _ = Except.ok (((Table.find? key ps).getD .null).move g)
    cases Table.find? key ps <;> rfl
  | _ => rfl

end Value

theorem UnaryOp.apply_move (op : UnaryOp) (v : Value) :
    op.apply (v.move g) = (op.apply v).map (Value.move g) := by
  cases op <;> cases v <;> rfl

theorem BinaryOp.apply_move (op : BinaryOp) (v w : Value) :
    op.apply (v.move g) (w.move g) = (op.apply v w).map (Value.move g) := by
  cases op with
  | equal => exact congrArg (fun same => Except.ok (Value.boolean same)) (Value.equals_move v w)
  | notEqual => exact congrArg (fun same => Except.ok (Value.boolean !same)) (Value.equals_move v w)
  | div =>
    cases v with
    | number x =>
      cases w with
      | number y =>
        show (if y == 0.0 then _ else _) = Except.map _ (if y == 0.0 then _ else _)
        split <;> rfl
      | _ => rfl
    | _ => cases w <;> rfl
  | _ => cases v <;> cases w <;> rfl

/-! ## Heaps -/

namespace Heap

variable {g}

theorem size_move (heap : Heap) : (heap.move g).size = heap.size := Array.size_map

theorem frame?_move (heap : Heap) (i : FrameId) :
    (heap.move g).frame? i = (heap.frame? i).map (Frame.move g) :=
  Array.getElem?_map

theorem push_move (heap : Heap) (frame : Frame) :
    (heap.move g).push (frame.move g) = (heap.push frame).move g := by
  simp [push, move]

theorem value?_move (heap : Heap) (i : FrameId) (name : String) :
    (heap.move g).value? i name = (heap.value? i name).map (Value.move g) := by
  rw [value?, value?, frame?_move]
  cases heap.frame? i with
  | none => rfl
  | some frame => exact Table.find?_move g name frame.bindings

theorem marks_move (heap : Heap) (i : FrameId) (name : String) :
    (heap.move g).marks i name = heap.marks i name := by
  rw [marks, marks, frame?_move]
  cases heap.frame? i <;> rfl

theorem parent?_move (heap : Heap) (i : FrameId) : (heap.move g).parent? i = heap.parent? i := by
  rw [parent?, parent?, frame?_move]
  cases heap.frame? i <;> rfl

theorem chain_move (heap : Heap) (i : FrameId) : (heap.move g).chain i = heap.chain i := by
  induction i using Nat.strongRecOn with
  | ind i ih =>
    rw [chain, chain, parent?_move]
    cases heap.parent? i with
    | none => rfl
    | some p => exact congrArg (i :: ·) (ih p.1 p.2)

theorem resolve_move (heap : Heap) (i : FrameId) (name : String) :
    (heap.move g).resolve i name = heap.resolve i name := by
  simp only [resolve, chain_move, value?_move, Option.isSome_map]

theorem lookup_move (heap : Heap) (i : FrameId) (name : String) :
    (heap.move g).lookup i name = (heap.lookup i name).map (Value.move g) := by
  have found (frames : List FrameId) :
      (frames.findSome? fun j => (heap.move g).value? j name) =
        (frames.findSome? fun j => heap.value? j name).map (Value.move g) := by
    simp only [value?_move, List.map_findSome?]
    rfl
  rw [lookup, lookup, chain_move, found]
  cases (heap.chain i).findSome? fun j => heap.value? j name <;> rfl

theorem bind_move (heap : Heap) (i : FrameId) (name : String) (v : Value) (constant : Bool) :
    (heap.move g).bind i name ⟨v.move g, constant⟩ =
      (heap.bind i name ⟨v, constant⟩).move g := by
  -- frame by frame: the one that binds the name, and the others
  refine congrArg Heap.mk (Array.ext_getElem? fun j => ?_)
  simp only [move, bind, Array.getElem?_modify, Array.getElem?_map]
  split
  · cases heap.frames[j]? with
    | none => rfl
    | some frame =>
      exact congrArg (fun bindings => some (Frame.mk frame.parent bindings _))
        (Table.insert_move g name v frame.bindings)
  · rfl

theorem declare_move (heap : Heap) (i : FrameId) (name : String) (v : Value) (constant : Bool) :
    (heap.move g).declare i name (v.move g) constant =
      (heap.declare i name v constant).map (Heap.move g) := by
  rw [declare, declare, value?_move]
  cases heap.value? i name with
  | some _ => rfl
  | none => exact congrArg Except.ok (bind_move heap i name v constant)

theorem assign_move (heap : Heap) (i : FrameId) (name : String) (v : Value) :
    (heap.move g).assign i name (v.move g) = (heap.assign i name v).map (Heap.move g) := by
  rw [assign, assign, resolve_move]
  cases heap.resolve i name with
  | none => rfl
  | some j =>
    simp only [marks_move]
    split
    · rfl
    · exact congrArg Except.ok (bind_move heap j name v false)

end Heap

end Guion
