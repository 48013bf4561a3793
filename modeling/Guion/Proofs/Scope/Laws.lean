import Guion.Proofs.Scope.Growth

/-!
# The laws of scopes

What looking a name up, assigning to it and declaring it do to each other, over any tree of frames
(`scope_laws`).  A name is looked up, resolved and assigned to along one chain, so the three agree
on the frame that owns it.  After an operation that succeeds, a name is seen as before from every
frame, except that the new value is seen where the frame it was bound in is exposed: where that
frame is on the chain and no nearer one binds the name.
-/

set_option autoImplicit false

namespace Guion

open Run Bounded

/-- A search along a list after one more answer was added, at `i`: it is found where no answer was
given before `i`, and makes no difference elsewhere. -/
theorem findSome?_of_added {α β : Type} {f f' : α → Option β} {i : α} {b : β}
    (away : ∀ j, j ≠ i → f' j = f j) (here : f' i = some b) (l : List α) :
    ((∃ nearer further, l = nearer ++ i :: further ∧ ∀ j ∈ nearer, f j = none) →
        l.findSome? f' = some b) ∧
      ((¬ ∃ nearer further, l = nearer ++ i :: further ∧ ∀ j ∈ nearer, f j = none) →
        l.findSome? f' = l.findSome? f) := by
  induction l with
  | nil => simp
  | cons j l ih =>
    by_cases same : j = i
    · subst same
      refine ⟨fun _ => by rw [List.findSome?_cons, here], fun hidden => ?_⟩
      exact absurd ⟨[], l, rfl, by simp⟩ hidden
    · rw [List.findSome?_cons, List.findSome?_cons, away j same]
      constructor
      · rintro ⟨nearer, further, split, silent⟩
        cases nearer with
        | nil => exact absurd (List.cons.inj split).1 same
        | cons k nearer =>
          obtain ⟨rfl, rest⟩ := List.cons.inj split
          obtain ⟨first, others⟩ := List.forall_mem_cons.1 silent
          rw [first]
          exact ih.1 ⟨nearer, further, rest, others⟩
      · intro hidden
        cases found : f j with
        | some _ => rfl
        | none =>
          refine ih.2 fun ⟨nearer, further, split, silent⟩ => hidden ?_
          exact ⟨j :: nearer, further, by rw [split]; rfl, List.forall_mem_cons.2 ⟨found, silent⟩⟩

namespace Heap

variable {h : Heap} {f g i r : FrameId} {name : String}

/-- From `g`, a binding of `name` in the frame at `i` is seen: that frame is on the chain, and no
nearer one binds the name. -/
def Exposes (h : Heap) (g : FrameId) (name : String) (i : FrameId) : Prop :=
  ∃ nearer further, h.chain g = nearer ++ i :: further ∧ ∀ j ∈ nearer, h.binding? j name = none

/-- A name is resolved to the frame that is exposed and binds it. -/
theorem resolve_eq_some_iff :
    h.resolve g name = some r ↔ h.Exposes g name r ∧ name ∈ h.names r := by
  rw [resolve, List.find?_eq_some_iff_append, and_comm]
  simp only [Exposes, names, Set.mem_ofPred_eq, isSome_value?, Option.isSome_iff_exists,
    Bool.not_eq_true', Option.isSome_eq_false_iff, Option.isNone_iff_eq_none]

theorem resolve_eq_none_iff :
    h.resolve g name = none ↔ ∀ j ∈ h.chain g, h.binding? j name = none := by
  simp [resolve]

/-- What is seen of a name is its binding in the frame it is resolved to. -/
theorem lookup_of_resolve (resolved : h.resolve g name = some r) :
    ∃ binding, h.binding? r name = some binding ∧ h.lookup g name = .ok binding.value := by
  obtain ⟨⟨nearer, further, chain, silent⟩, binding, found⟩ := resolve_eq_some_iff.1 resolved
  have seen : (h.chain g).findSome? (fun j => h.value? j name) = some binding.value :=
    List.findSome?_eq_some_iff.2 ⟨nearer, r, further, chain, (binding?_eq_some.1 found).1,
      fun j listed => value?_eq_none.2 (silent j listed)⟩
  exact ⟨binding, found, by rw [lookup, seen]⟩

theorem lookup_of_unresolved (none : h.resolve g name = none) :
    h.lookup g name = .error (.unresolvedName name) := by
  have seen : (h.chain g).findSome? (fun j => h.value? j name) = Option.none :=
    List.findSome?_eq_none_iff.2 fun j listed =>
      value?_eq_none.2 (resolve_eq_none_iff.1 none j listed)
  rw [lookup, seen]

theorem lookup_eq_error_iff :
    h.lookup g name = .error (.unresolvedName name) ↔ h.resolve g name = none := by
  refine ⟨fun failed => ?_, lookup_of_unresolved⟩
  cases resolved : h.resolve g name with
  | none => rfl
  | some r =>
    obtain ⟨binding, -, seen⟩ := lookup_of_resolve resolved
    cases seen.symm.trans failed

theorem chain_bind (h : Heap) (i : FrameId) (name : String) (binding : Binding) (g : FrameId) :
    (h.bind i name binding).chain g = h.chain g := by
  induction g using Nat.strongRecOn with
  | ind g ih =>
    rw [chain.eq_def (h.bind i name binding), chain.eq_def h, parent?_bind]
    cases h.parent? g with
    | none => rfl
    | some p => exact congrArg (g :: ·) (ih p p.2)

/-! ## Looking up after binding -/

section Bind

variable (there : i < h.size) (binding : Binding)

include there

/-- A search along a chain after the name was bound in one frame. -/
theorem findSome?_bind (g : FrameId) (name : String) :
    (h.Exposes g name i → (h.chain g).findSome? (fun j => (h.bind i name binding).value? j name) =
        some binding.value) ∧
      (¬ h.Exposes g name i →
        (h.chain g).findSome? (fun j => (h.bind i name binding).value? j name) =
          (h.chain g).findSome? fun j => h.value? j name) := by
  have here : (h.bind i name binding).value? i name = some binding.value := by
    simp [value?_bind, there]
  have away (j : FrameId) (other : j ≠ i) :
      (h.bind i name binding).value? j name = h.value? j name := by
    simp [value?_bind, other]
  simp only [Exposes, ← value?_eq_none]
  exact findSome?_of_added away here (h.chain g)

/-- A new binding is seen from where its frame is exposed. -/
theorem lookup_bind_of_exposes (exposed : h.Exposes g name i) :
    (h.bind i name binding).lookup g name = .ok binding.value := by
  rw [lookup, chain_bind, (findSome?_bind there binding g name).1 exposed]

/-- From elsewhere, and of other names, the same is seen as before. -/
theorem lookup_bind_of_not (query : String) (hidden : ¬ (query = name ∧ h.Exposes g name i)) :
    (h.bind i name binding).lookup g query = h.lookup g query := by
  by_cases same : query = name
  · subst same
    have elsewhere : ¬ h.Exposes g query i := fun exposed => hidden ⟨rfl, exposed⟩
    rw [lookup, chain_bind, (findSome?_bind there binding g query).2 elsewhere, lookup]
  · have others (j : FrameId) : (h.bind i name binding).value? j query = h.value? j query := by
      simp [value?_bind, same]
    simp only [lookup, chain_bind, others]

end Bind

/-! ## Assigning and declaring -/

theorem assign_of_unresolved (value : Value) (none : h.resolve f name = none) :
    h.assign f name value = .error (.unresolvedName name) := by
  rw [assign, none]

theorem assign_of_constant (value : Value) (resolved : h.resolve f name = some r)
    (constant : name ∈ h.constants r) :
    h.assign f name value = .error (.constantAssignment name) := by
  rw [assign, resolved]
  exact if_pos constant

theorem assign_of_variable (value : Value) (resolved : h.resolve f name = some r)
    (free : name ∉ h.constants r) :
    h.assign f name value = .ok (h.bind r name ⟨value, false⟩) := by
  rw [assign, resolved]
  exact if_neg free

theorem declare_of_bound (value : Value) (constant : Bool) (bound : name ∈ h.names f) :
    h.declare f name value constant = .error (.duplicateBinding name) := by
  obtain ⟨binding, found⟩ := bound
  rw [declare, (binding?_eq_some.1 found).1]

theorem declare_of_unbound (value : Value) (constant : Bool) (free : name ∉ h.names f) :
    h.declare f name value constant = .ok (h.bind f name ⟨value, constant⟩) := by
  rw [declare, value?_eq_none.2 (not_mem_names.1 free)]

/-- Assigning fails for one of two reasons, told apart by what the name is resolved to. -/
theorem assign_eq_error_iff (value : Value) :
    (h.assign f name value = .error (.unresolvedName name) ↔ h.resolve f name = none) ∧
      (h.assign f name value = .error (.constantAssignment name) ↔
        ∃ r, h.resolve f name = some r ∧ name ∈ h.constants r) := by
  cases resolved : h.resolve f name with
  | none => simp [assign_of_unresolved value resolved]
  | some r =>
    by_cases constant : name ∈ h.constants r
    · simp [assign_of_constant value resolved constant, constant]
    · simp [assign_of_variable value resolved constant, constant]

theorem declare_eq_error_iff (value : Value) (constant : Bool) :
    h.declare f name value constant = .error (.duplicateBinding name) ↔ name ∈ h.names f := by
  by_cases bound : name ∈ h.names f
  · simp [declare_of_bound value constant bound, bound]
  · simp [declare_of_unbound value constant bound, bound]

/-- What is resolved to a frame that binds the name is what sees that frame. -/
theorem lookup_assigned (value : Value) (resolved : h.resolve f name = some r) (g : FrameId)
    (query : String) :
    (h.bind r name ⟨value, false⟩).lookup g query =
      if query = name ∧ h.resolve g name = some r then .ok value else h.lookup g query := by
  obtain ⟨-, bound⟩ := resolve_eq_some_iff.1 resolved
  obtain ⟨_, found⟩ := id bound
  have there := lt_size_of_binding? found
  split
  · rename_i seen
    obtain ⟨rfl, owner⟩ := seen
    exact lookup_bind_of_exposes there _ (resolve_eq_some_iff.1 owner).1
  · rename_i unseen
    refine lookup_bind_of_not there _ query fun ⟨same, exposed⟩ => unseen ⟨same, ?_⟩
    exact resolve_eq_some_iff.2 ⟨exposed, bound⟩

end Heap

/-! ## The operations of a machine -/

section Operations

variable {s t : Machine} {f : FrameId} {name : String} {value : Value} {constant : Bool}
  {stop : Stop RuntimeError}

theorem Run.lookup_eq_error_iff :
    lookup f name s = .error stop t ↔
      t = s ∧ ∃ cause, stop = .error cause ∧ s.heap.lookup f name = .error cause := by
  rw [lookup_apply]
  cases s.heap.lookup f name with
  | ok v => simp
  | error cause => simp [eq_comm, and_comm]

theorem Run.assign_eq_error_iff :
    assign f name value s = .error stop t ↔
      t = s ∧ ∃ cause, stop = .error cause ∧ s.heap.assign f name value = .error cause := by
  rw [Run.assign]
  cases s.heap.assign f name value with
  | ok k => simp
  | error cause => simp [eq_comm, and_comm]

theorem Run.declare_eq_error_iff :
    declare f name value constant s = .error stop t ↔
      t = s ∧ ∃ cause, stop = .error cause ∧
        s.heap.declare f name value constant = .error cause := by
  rw [Run.declare]
  cases s.heap.declare f name value constant with
  | ok k => simp
  | error cause => simp [eq_comm, and_comm]

end Operations

/-- The laws of one frame and one name. -/
structure ScopeLaws (s : Machine) (f : FrameId) (name : String) (value : Value)
    (constant : Bool) : Prop where
  /-- The value of a name is the one it is bound to in the frame it is resolved to. -/
  lookup_resolved : ∀ r, s.heap.resolve f name = some r →
    ∃ binding, s.heap.binding? r name = some binding ∧ lookup f name s = .ok binding.value s
  lookup_unresolved : lookup f name s = .error (.error (.unresolvedName name)) s ↔
    s.heap.resolve f name = none
  assign_unresolved : assign f name value s = .error (.error (.unresolvedName name)) s ↔
    s.heap.resolve f name = none
  assign_constant : assign f name value s = .error (.error (.constantAssignment name)) s ↔
    ∃ r, s.heap.resolve f name = some r ∧ name ∈ s.heap.constants r
  /-- A variable has the new value for all who see it in the same frame. -/
  assign_variable : ∀ r, s.heap.resolve f name = some r → name ∉ s.heap.constants r →
    ∃ after, assign f name value s = .ok value { s with heap := after } ∧ ∀ g query,
      after.lookup g query =
        if query = name ∧ s.heap.resolve g name = some r then .ok value
        else s.heap.lookup g query
  declare_bound : declare f name value constant s = .error (.error (.duplicateBinding name)) s ↔
    name ∈ s.heap.names f
  /-- A new name is seen from the frames to which its frame is exposed. -/
  declare_unbound : name ∉ s.heap.names f →
    ∃ after, declare f name value constant s = .ok value { s with heap := after } ∧ ∀ g query,
      (query = name ∧ s.heap.Exposes g name f → after.lookup g query = .ok value) ∧
        (¬ (query = name ∧ s.heap.Exposes g name f) →
          after.lookup g query = s.heap.lookup g query)
  /-- What fails changes nothing. -/
  failed : ∀ stop t, lookup f name s = .error stop t ∨ assign f name value s = .error stop t ∨
    declare f name value constant s = .error stop t → t = s

/-- The operations on frames obey the laws of scopes. -/
theorem scope_laws (s : Machine) {f : FrameId} (there : f < s.heap.size) (name : String)
    (value : Value) (constant : Bool) : ScopeLaws s f name value constant := by
  constructor
  · intro r resolved
    obtain ⟨binding, found, seen⟩ := Heap.lookup_of_resolve resolved
    exact ⟨binding, found, by rw [lookup_apply, seen]⟩
  · rw [Run.lookup_eq_error_iff, ← Heap.lookup_eq_error_iff]
    simp
  · rw [Run.assign_eq_error_iff, ← (Heap.assign_eq_error_iff value).1]
    simp
  · rw [Run.assign_eq_error_iff, ← (Heap.assign_eq_error_iff value).2]
    simp
  · intro r resolved free
    have done := Heap.assign_of_variable value resolved free
    exact ⟨_, by rw [Run.assign, done], Heap.lookup_assigned value resolved⟩
  · rw [Run.declare_eq_error_iff, ← Heap.declare_eq_error_iff value constant]
    simp
  · intro free
    have done := Heap.declare_of_unbound value constant free
    refine ⟨_, by rw [Run.declare, done], fun g query => ⟨?_, ?_⟩⟩
    · rintro ⟨rfl, exposed⟩
      exact Heap.lookup_bind_of_exposes there _ exposed
    · exact Heap.lookup_bind_of_not there _ query
  · rintro stop t (failed | failed | failed)
    · exact (Run.lookup_eq_error_iff.1 failed).1
    · exact (Run.assign_eq_error_iff.1 failed).1
    · exact (Run.declare_eq_error_iff.1 failed).1

/-- A constant `x` in the outermost of three frames, and a variable `x` in the one between. -/
def Machine.shadowing : Machine :=
  let outer := (Heap.empty.push (.empty none)).bind 0 "x" ⟨.null, true⟩
  let middle := (outer.push (.empty (some 0))).bind 1 "x" ⟨.null, false⟩
  { Machine.empty none with heap := middle.push (.empty (some 1)) }

/-- An assignment in the innermost frame goes to the variable, and the constant stays. -/
theorem scope_laws_shadowing :
    2 < Machine.shadowing.heap.size ∧ Machine.shadowing.heap.resolve 2 "x" = some 1 ∧
      ∃ after, assign 2 "x" (.boolean true) .shadowing =
          .ok (.boolean true) { Machine.shadowing with heap := after } ∧
        after.lookup 2 "x" = .ok (.boolean true) ∧
        after.lookup 0 "x" = Machine.shadowing.heap.lookup 0 "x" := by
  have there : 2 < Machine.shadowing.heap.size := by decide
  have inner : Machine.shadowing.heap.resolve 2 "x" = some 1 := by decide +kernel
  have outer : Machine.shadowing.heap.resolve 0 "x" = some 0 := by decide +kernel
  have free : "x" ∉ Machine.shadowing.heap.constants 1 := fun mark => by cases mark
  have laws := scope_laws .shadowing there "x" (.boolean true) false
  obtain ⟨after, done, seen⟩ := laws.assign_variable 1 inner free
  refine ⟨there, inner, after, done, ?_, ?_⟩
  · rw [seen, if_pos ⟨rfl, inner⟩]
  · rw [seen, outer]
    simp

end Guion
