import Guion.Proofs.Evaluation.Lockstep
import Mathlib.Data.Set.Basic

/-!
# How heaps grow

Evaluation adds frames, gives new values to variables and declares names; it never takes a name
away, moves a frame or touches a constant.  `Heap.Grows` says so of two heaps, with the frames in
which names may be new as a parameter; for the names and constants of a frame it says that the
former only become more and the latter stay what they are.

Values and marks of a frame are in two tables, so growth speaks of both: a mark stays, and a new one
is that of a name which is bound.  Tables that are in step stay in step (`Heap.Grows.inStep`).

An expression declares names in frames of its own making only, so no old frame is open to it
(`grows_evaluate`); a statement in a frame has that frame open (`grows_statements`, `grows_phrase`).
-/

set_option autoImplicit false

namespace Guion

open Run Bounded

namespace Heap

/-! ## Operations -/

theorem binding?_push {h : Heap} {i : FrameId} (old : i < h.size) (frame : Frame) (name : String) :
    (h.push frame).binding? i name = h.binding? i name := by
  rw [binding?, frame?_push, if_neg (Nat.ne_of_lt old), binding?]

theorem marks_push_empty (h : Heap) (parent : Option FrameId) (i : FrameId) (name : String) :
    (h.push (.empty parent)).marks i name = h.marks i name := by
  rw [marks, marks, frame?_push]
  split
  · rename_i new
    rw [frame?_eq_none (Nat.le_of_eq new.symm)]
    rfl
  · rfl

/-- A name that was declared was not bound in the frame, and is there now. -/
theorem declare_eq_ok {h k : Heap} {i : FrameId} {name : String} {value : Value} {constant : Bool}
    (done : h.declare i name value constant = .ok k) :
    h.binding? i name = none ∧ k = h.bind i name ⟨value, constant⟩ := by
  unfold declare at done
  split at done <;> cases done
  exact ⟨value?_eq_none.1 ‹_›, rfl⟩

/-- What was assigned to is a variable of some frame on the chain, and has the value now. -/
theorem assign_eq_ok {h k : Heap} {i : FrameId} {name : String} {value : Value}
    (done : h.assign i name value = .ok k) :
    ∃ j before, h.resolve i name = some j ∧ h.binding? j name = some before ∧
      before.constant = false ∧ k = h.bind j name ⟨value, false⟩ := by
  unfold assign at done
  split at done
  · cases done
  · rename_i j resolved
    split at done <;> cases done
    rename_i free
    have bound := List.find?_some (p := fun j => (h.value? j name).isSome) resolved
    rw [isSome_value?] at bound
    obtain ⟨before, found⟩ := Option.isSome_iff_exists.1 bound
    have variable_ : before.constant = false := by
      rw [← (binding?_eq_some.1 found).2]
      exact Bool.not_eq_true _ ▸ free
    exact ⟨j, before, resolved, found, variable_, rfl⟩

/-! ## Growth -/

/-- `h'` is `h` with frames added, with other values for variables, and with names declared in old
frames that are open. -/
structure Grows (opened : FrameId → Prop) (h h' : Heap) : Prop where
  size : h.size ≤ h'.size
  parent : ∀ i < h.size, (h'.frame? i).map Frame.parent = (h.frame? i).map Frame.parent
  kept : ∀ {i name before}, h.binding? i name = some before →
    ∃ now, h'.binding? i name = some now ∧
      (now = before ∨ before.constant = false ∧ now.constant = false)
  unbound : ∀ {i name}, i < h.size → ¬ opened i → h.binding? i name = none →
    h'.binding? i name = none
  marked : ∀ {i name}, h.marks i name → h'.marks i name
  /-- A new mark is that of a bound name, where names may be new. -/
  explained : ∀ {i name}, h'.marks i name → h.marks i name ∨
    (opened i ∨ h.size ≤ i) ∧ ∃ now, h'.binding? i name = some now

namespace Grows

variable {opened : FrameId → Prop} {h h' k : Heap}

theorem refl (h : Heap) : Grows opened h h where
  size := Nat.le_refl _
  parent _ _ := rfl
  kept found := ⟨_, found, .inl rfl⟩
  unbound _ _ none := none
  marked mark := mark
  explained mark := .inl mark

theorem trans (first : Grows opened h h') (second : Grows opened h' k) : Grows opened h k where
  size := Nat.le_trans first.size second.size
  parent i old := by
    rw [second.parent i (Nat.lt_of_lt_of_le old first.size), first.parent i old]
  kept found := by
    -- a binding that changed in the first part is a variable, and so is what it became
    obtain ⟨middle, there, same | ⟨free, stays⟩⟩ := first.kept found
    · obtain ⟨now, still, change⟩ := second.kept there
      exact ⟨now, still, same ▸ change⟩
    · obtain ⟨now, still, same | ⟨-, free'⟩⟩ := second.kept there
      · exact ⟨now, still, .inr ⟨free, same ▸ stays⟩⟩
      · exact ⟨now, still, .inr ⟨free, free'⟩⟩
  unbound old closed none :=
    second.unbound (Nat.lt_of_lt_of_le old first.size) closed (first.unbound old closed none)
  marked mark := second.marked (first.marked mark)
  explained mark := by
    rcases second.explained mark with earlier | ⟨place, bound⟩
    · refine (first.explained earlier).imp_right fun ⟨place, before, found⟩ => ⟨place, ?_⟩
      obtain ⟨now, there, -⟩ := second.kept found
      exact ⟨now, there⟩
    · exact .inr ⟨place.imp_right (Nat.le_trans first.size), bound⟩

theorem push (h : Heap) (parent : Option FrameId) : Grows opened h (h.push (.empty parent)) where
  size := by simp
  parent i old := by rw [frame?_push, if_neg (Nat.ne_of_lt old)]
  kept found := by
    rw [binding?_push (lt_size_of_binding? found)]
    exact ⟨_, found, .inl rfl⟩
  unbound old _ none := by rwa [binding?_push old]
  marked mark := by rwa [marks_push_empty]
  explained mark := .inl (marks_push_empty h parent _ _ ▸ mark)

theorem parent_bind (i : FrameId) (name : String) (binding : Binding) (j : FrameId) :
    ((h.bind i name binding).frame? j).map Frame.parent = (h.frame? j).map Frame.parent := by
  rw [frame?_bind]
  split
  · rw [Option.map_map]
    rfl
  · rfl

theorem assign {i : FrameId} {name : String} {value : Value}
    (done : h.assign i name value = .ok k) : Grows opened h k := by
  obtain ⟨j, old, -, there, free, rfl⟩ := assign_eq_ok done
  constructor
  · exact Nat.le_of_eq (size_bind h j name _).symm
  · intro i _
    exact parent_bind j name _ i
  · intro i query before found
    rw [binding?_bind]
    split
    · rename_i same
      obtain ⟨rfl, -, rfl⟩ := same
      cases there.symm.trans found
      exact ⟨_, rfl, .inr ⟨free, (binding?_eq_some.1 there).2.trans free⟩⟩
    · exact ⟨before, found, .inl rfl⟩
  · intro i query _ _ none
    rw [binding?_bind]
    split
    · rename_i same
      obtain ⟨rfl, -, rfl⟩ := same
      cases there.symm.trans none
    · exact none
  -- an assignment leaves the marks as they are
  · intro i query mark
    rwa [marks_bind_variable]
  · intro i query mark
    rw [marks_bind_variable] at mark
    exact .inl mark

/-- A declaration in a frame that is open, or was not there. -/
theorem declare (before : Grows opened h h') {i : FrameId} {name : String} {value : Value}
    {constant : Bool} (allowed : opened i ∨ h.size ≤ i)
    (done : h'.declare i name value constant = .ok k) : Grows opened h k := by
  obtain ⟨free, rfl⟩ := declare_eq_ok done
  constructor
  · rw [size_bind]
    exact before.size
  · intro j old
    rw [parent_bind, before.parent j old]
  · intro j query binding found
    obtain ⟨now, there, same⟩ := before.kept found
    refine ⟨now, ?_, same⟩
    rw [binding?_bind, if_neg, there]
    -- the name that is declared was free, so it is not one of the old ones
    rintro ⟨rfl, -, rfl⟩
    cases free.symm.trans there
  · intro j query old closed none
    rw [binding?_bind, if_neg, before.unbound old closed none]
    rintro ⟨rfl, -, -⟩
    rcases allowed with here | new
    · exact closed here
    · omega
  · intro j query mark
    have there := before.marked mark
    rw [marks_bind]
    split
    · rename_i same
      obtain ⟨rfl, -, rfl⟩ := same
      rw [there, Bool.or_true]
    · exact there
  · intro j query mark
    rw [marks_bind] at mark
    split at mark
    -- the name that is marked is the one that is bound
    · rename_i same
      have now := binding?_bind h' i j name query ⟨value, constant⟩
      rw [if_pos same] at now
      exact .inr ⟨same.1 ▸ allowed, _, now⟩
    · rename_i other
      rw [binding?_bind, if_neg other]
      exact before.explained mark

theorem mono {opened' : FrameId → Prop} (weaker : ∀ i, opened i → opened' i)
    (grown : Grows opened h h') : Grows opened' h h' :=
  { grown with
    unbound := fun old closed => grown.unbound old fun here => closed (weaker _ here)
    explained := fun mark => (grown.explained mark).imp_right fun ⟨place, bound⟩ =>
      ⟨place.imp_left (weaker _), bound⟩ }

end Grows

/-! ## Names -/

/-- The names bound in a frame. -/
def names (h : Heap) (i : FrameId) : Set String :=
  {name | ∃ binding, h.binding? i name = some binding}

/-- The names that a frame marks as constants. -/
def constants (h : Heap) (i : FrameId) : Set String :=
  {name | h.marks i name = true}

/-- The two tables of every frame are in step: what is marked as a constant is bound. -/
def InStep (h : Heap) : Prop := ∀ i, h.constants i ⊆ h.names i

/-- A frame by itself may mark a name that it does not bind. -/
example : ¬ InStep ⟨#[⟨none, [], [("x", ())]⟩]⟩ := by
  intro inStep
  obtain ⟨_, found⟩ := inStep 0 (show "x" ∈ _ from rfl)
  cases found

theorem not_mem_names {h : Heap} {i : FrameId} {name : String} :
    name ∉ h.names i ↔ h.binding? i name = none := by
  rw [Option.eq_none_iff_forall_ne_some]
  exact not_exists

namespace Grows

variable {opened : FrameId → Prop} {h h' : Heap} {i : FrameId} (grown : Grows opened h h')

include grown

theorem names_subset : h.names i ⊆ h'.names i := by
  rintro name ⟨before, found⟩
  obtain ⟨now, there, -⟩ := grown.kept found
  exact ⟨now, there⟩

/-- A constant keeps its value, if it has one. -/
theorem binding?_of_constant {name : String} (bound : name ∈ h.names i)
    (constant : name ∈ h.constants i) : h'.binding? i name = h.binding? i name := by
  obtain ⟨before, found⟩ := bound
  have mark : before.constant = true := (binding?_eq_some.1 found).2.symm.trans constant
  obtain ⟨now, there, rfl | ⟨free, -⟩⟩ := grown.kept found
  · rw [there, found]
  · cases mark.symm.trans free

/-- A name that is bound is a constant if it was one. -/
theorem mem_constants_iff {name : String} (bound : name ∈ h.names i) :
    name ∈ h'.constants i ↔ name ∈ h.constants i := by
  refine ⟨fun mark => ?_, grown.marked⟩
  obtain ⟨before, found⟩ := bound
  obtain ⟨now, there, rfl | ⟨-, free⟩⟩ := grown.kept found
  · exact (binding?_eq_some.1 found).2.trans ((binding?_eq_some.1 there).2.symm.trans mark)
  · cases mark.symm.trans ((binding?_eq_some.1 there).2.trans free)

/-- Tables that are in step stay so: a mark is an old one, of a name that stays bound, or that of a
name which is bound now. -/
theorem inStep (inStep : h.InStep) : h'.InStep := by
  intro i name mark
  rcases grown.explained mark with before | ⟨-, bound⟩
  · exact grown.names_subset (inStep i before)
  · exact bound

variable (old : i < h.size) (closed : ¬ opened i)

include old closed

theorem names_eq : h'.names i = h.names i := by
  refine Set.Subset.antisymm (fun name there => ?_) grown.names_subset
  by_contra missing
  have none := grown.unbound old closed (not_mem_names.1 missing)
  exact not_mem_names.2 none there

theorem constants_eq : h'.constants i = h.constants i := by
  refine Set.Subset.antisymm (fun name mark => ?_) fun name mark => grown.marked mark
  rcases grown.explained mark with before | ⟨here | new, -⟩
  · exact before
  · exact absurd here closed
  · exact absurd old (Nat.not_lt.2 new)

/-- Where no names may be new, what is marked has the value that it had, or none as before. -/
theorem binding?_eq_of_constant {name : String} (constant : name ∈ h.constants i) :
    h'.binding? i name = h.binding? i name := by
  by_cases bound : name ∈ h.names i
  · exact grown.binding?_of_constant bound constant
  · have none := not_mem_names.1 bound
    rw [none, grown.unbound old closed none]

end Grows

end Heap

/-! ## Evaluation -/

/-- All frames and values, with names declared in open frames and in those `h` does not have. -/
def Realm.opening (opened : FrameId → Prop) (h : Heap) : Realm :=
  { Realm.all with
    own := fun i => opened i ∨ h.size ≤ i
    frame_of_own := fun _ => trivial }

theorem heapSimulation_grows (opened : FrameId → Prop) (h : Heap) :
    HeapSimulation (.opening opened h) fun k k' => k' = k ∧ h.Grows opened k := by
  apply HeapSimulation.ofInvariant
  · intro v
    exact trivial
  · intro k grown
    exact .inr grown.size
  · intro k grown i _
    exact grown.trans (.push k (some i))
  · intro k k' grown i name v constant allowed done
    exact grown.declare allowed done
  · intro k k' grown i name v done
    exact grown.trans (.assign done)

section Evaluation

variable {opened : FrameId → Prop} {s : Machine} {p : Run Value} {A : Value → Prop}

theorem grows_of_lockstep
    (h : Lockstep (Beside fun k k' => k' = k ∧ s.heap.Grows opened k) Value A p p) :
    s.heap.Grows opened (final (p s)).heap := by
  have start : Beside (fun k k' => k' = k ∧ s.heap.Grows opened k) s s :=
    ⟨s.heap, ⟨rfl, .refl _⟩, rfl⟩
  obtain ⟨_, ⟨-, grown⟩, -⟩ := (h s s start).final
  exact grown

variable (setting : Setting)

/-- An expression gives no old frame a name. -/
theorem grows_evaluate (e : Expression) (frame : FrameId) (s : Machine) :
    s.heap.Grows (fun _ => False) (final (evaluate setting e frame s)).heap :=
  grows_of_lockstep ((heapSimulation_grows _ s.heap).evaluate setting e frame trivial)

/-- Statements give names to no old frame but theirs. -/
theorem grows_statements (frame : FrameId) (last : Value) (ss : List Statement) (s : Machine) :
    s.heap.Grows (· = frame) (final (statements (evaluate setting) frame last ss s)).heap := by
  have sim := heapSimulation_grows (· = frame) s.heap
  apply grows_of_lockstep
  exact (sim.relates setting).statements (sim.evaluate setting) (.inl rfl) trivial ss

theorem grows_phrase (frame : FrameId) (phrase : Phrase) (s : Machine) :
    s.heap.Grows (· = frame) (final (phrase.run setting frame s)).heap :=
  grows_of_lockstep ((heapSimulation_grows (· = frame) s.heap).phrase setting (.inl rfl) phrase)

end Evaluation

end Guion
