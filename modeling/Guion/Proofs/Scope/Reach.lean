import Guion.Proofs.Evaluation.Lockstep
import Mathlib.Data.List.Basic
import Mathlib.Data.List.Find

/-!
# Reachable frames

Evaluation sees and touches only what it can reach (`evaluation_confined`).  From a frame it gets to
the frames around it and to those that functions among the bindings were made in; `Heap.Reach` is
the least set of frames closed under both.

Together with the frames that are made later, the frames reachable at the start form a region that
stays closed throughout: whatever comes up in the evaluation points into it (`Realm.confined`).  Two
heaps that agree on such a region are therefore kept in agreement by every operation
(`heapSimulation_agree`), and what lies outside of it stays as it was.  The region does not change
along a run, so reachability in the heaps in between does not have to be followed.
-/

set_option autoImplicit false

namespace Guion

open Run Bounded

/-- A function that occurs in the value, also in a property of an object or in a signal, was made in
the frame at `i`. -/
inductive Value.Captures : Value → FrameId → Prop
  | function (f : Closure) : Captures (.function f) f.frame
  | object {identity : Identity} {properties : List (String × Value)} {entry : String × Value}
      {i : FrameId} : entry ∈ properties → Captures entry.2 i →
      Captures (.object identity properties) i
  | returned {v : Value} {i : FrameId} : Captures v i → Captures (.returned v) i

/-- The frame at `i` can be reached from the frame at `f`: it is that frame, the parent of one that
can be reached, or captured by a value bound in one. -/
inductive Heap.Reach (h : Heap) (f : FrameId) : FrameId → Prop
  | start : Reach h f f
  | parent {i p : FrameId} {frame : Frame} : Reach h f i → h.frame? i = some frame →
      frame.parent = some p → Reach h f p
  | captured {i j : FrameId} {name : String} {binding : Binding} : Reach h f i →
      h.binding? i name = some binding → binding.value.Captures j → Reach h f j

/-! ## Regions -/

/-- All frames that the value captures lie in the region. -/
def Value.Confined (region : FrameId → Prop) (v : Value) : Prop := ∀ i, v.Captures i → region i

/-- The frames of a region, and the values that capture no others. -/
def Realm.confined (region : FrameId → Prop) : Realm where
  frame := region
  own := region
  value := Value.Confined region
  frame_of_own := id
  null := nofun
  boolean _ := nofun
  number _ := nofun
  string _ := nofun
  function := by
    intro f
    constructor
    · intro confined
      exact confined _ (.function f)
    · rintro inside _ ⟨⟩
      exact inside
  object := by
    intro identity properties
    constructor
    · intro confined entry listed i captured
      exact confined i (.object listed captured)
    · intro confined i captured
      cases captured with
      | object listed inner => exact confined _ listed i inner
  returned := by
    intro v
    constructor
    · intro confined i captured
      exact confined i (.returned captured)
    · intro confined i captured
      cases captured with
      | returned inner => exact confined i inner

/-- The region holds the parents of its frames, what their bindings capture, and every place that
has no frame yet. -/
structure Heap.Closed (region : FrameId → Prop) (h : Heap) : Prop where
  parent : ∀ {i p frame}, region i → h.frame? i = some frame → frame.parent = some p → region p
  value : ∀ {i name binding}, region i → h.binding? i name = some binding →
    binding.value.Confined region
  later : ∀ {i}, h.size ≤ i → region i

/-- The frames that can be reached, and those that are made later. -/
def Heap.region (h : Heap) (f i : FrameId) : Prop := h.Reach f i ∨ h.size ≤ i

theorem Heap.closed_region (h : Heap) (f : FrameId) : h.Closed (h.region f) where
  parent := by
    rintro i p frame (reached | none) found link
    · exact .inl (.parent reached found link)
    · exact absurd (lt_size_of_frame? found) (Nat.not_lt.2 none)
  value := by
    rintro i name binding (reached | none) found j captured
    · exact .inl (.captured reached found captured)
    · exact absurd (lt_size_of_binding? found) (Nat.not_lt.2 none)
  later := .inr

/-- The heaps have as many frames, and those of the region are the same. -/
structure Heap.SameOn (region : FrameId → Prop) (h h' : Heap) : Prop where
  size : h'.size = h.size
  frames : ∀ {i}, region i → h'.frame? i = h.frame? i

/-- Two heaps agree on a region that is closed, and outside of it the first is as at the origin. -/
structure Heap.Agree (region : FrameId → Prop) (origin h h' : Heap) : Prop
    extends SameOn region h h' where
  closed : h.Closed region
  outside : ∀ {i}, ¬ region i → h.frame? i = origin.frame? i

namespace Heap

theorem parent_of_parent? {h : Heap} {i : FrameId} {p : { p : FrameId // p < i }}
    (link : h.parent? i = some p) : ∃ frame, h.frame? i = some frame ∧ frame.parent = some p := by
  obtain ⟨frame, found, link⟩ := Option.bind_eq_some_iff.1 link
  obtain ⟨q, parent, older⟩ := Option.bind_eq_some_iff.1 link
  split at older <;> cases older
  exact ⟨frame, found, parent⟩

namespace Agree

variable {region : FrameId → Prop} {origin h h' : Heap} (agree : Agree region origin h h')
  {i : FrameId} (inside : region i)

include agree inside

/-! ## Looking up -/

theorem value?_eq (name : String) : h'.value? i name = h.value? i name := by
  rw [value?, agree.frames inside, value?]

theorem marks_eq (name : String) : h'.marks i name = h.marks i name := by
  rw [marks, agree.frames inside, marks]

/-- The chain of a frame in the region lies in the region, and is the same in both heaps. -/
theorem chain_eq : h'.chain i = h.chain i ∧ ∀ j ∈ h.chain i, region j := by
  induction i using Nat.strongRecOn with
  | ind i ih =>
    have same : h'.parent? i = h.parent? i := by
      rw [parent?, agree.frames inside, parent?]
    rw [chain.eq_def h' i, chain.eq_def h i, same]
    cases link : h.parent? i with
    | none => exact ⟨rfl, List.forall_mem_singleton.2 inside⟩
    | some p =>
      obtain ⟨frame, found, parent⟩ := parent_of_parent? link
      obtain ⟨around, within⟩ := ih p p.2 (agree.closed.parent inside found parent)
      exact ⟨congrArg (i :: ·) around, List.forall_mem_cons.2 ⟨inside, within⟩⟩

theorem lookup_eq (name : String) : h'.lookup i name = h.lookup i name := by
  obtain ⟨same, within⟩ := agree.chain_eq inside
  have values : (h.chain i).findSome? (fun j => h'.value? j name) =
      (h.chain i).findSome? fun j => h.value? j name := by
    rw [← List.head?_filterMap, ← List.head?_filterMap]
    rw [List.filterMap_congr fun j listed => agree.value?_eq (within j listed) name]
  rw [lookup, same, values, lookup]

theorem confined_of_lookup {name : String} {v : Value} (found : h.lookup i name = .ok v) :
    v.Confined region := by
  obtain ⟨j, listed, _, there⟩ := exists_binding?_of_lookup found
  exact agree.closed.value ((agree.chain_eq inside).2 j listed) there

theorem resolve_eq (name : String) : h'.resolve i name = h.resolve i name := by
  obtain ⟨same, within⟩ := agree.chain_eq inside
  rw [resolve, same, resolve]
  apply List.find?_congr
  intro j listed
  rw [agree.value?_eq (within j listed)]

theorem region_of_resolve {name : String} {j : FrameId} (found : h.resolve i name = some j) :
    region j :=
  (agree.chain_eq inside).2 j (List.mem_of_find?_eq_some found)

/-! ## Changing the heap -/

theorem push : Agree region origin (h.push (.empty (some i))) (h'.push (.empty (some i))) where
  closed := by
    constructor
    · intro j p frame there found link
      rw [frame?_push] at found
      split at found
      · cases found
        cases link
        exact inside
      · exact agree.closed.parent there found link
    · intro j name binding there found
      rw [binding?, frame?_push] at found
      split at found
      · cases found
      · exact agree.closed.value there found
    · intro j none
      rw [size_push] at none
      exact agree.closed.later (Nat.le_of_succ_le none)
  size := by rw [size_push, size_push, agree.size]
  frames there := by rw [frame?_push, frame?_push, agree.size, agree.frames there]
  outside {j} away := by
    -- the new frame is made in the region, which has every place that was free
    have old : j ≠ h.size := by
      rintro rfl
      exact away (agree.closed.later (Nat.le_refl _))
    rw [frame?_push, if_neg old, agree.outside away]

theorem bind {name : String} {binding : Binding} (confined : binding.value.Confined region) :
    Agree region origin (h.bind i name binding) (h'.bind i name binding) where
  closed := by
    constructor
    · intro j p frame there found link
      rw [frame?_bind] at found
      split at found
      · obtain ⟨before, old, rfl⟩ := Option.map_eq_some_iff.1 found
        exact agree.closed.parent there old link
      · exact agree.closed.parent there found link
    · intro j query now there found
      rw [binding?_bind] at found
      split at found
      · cases found
        exact confined
      · exact agree.closed.value there found
    · intro j none
      rw [size_bind] at none
      exact agree.closed.later none
  size := by rw [size_bind, size_bind, agree.size]
  frames there := by rw [frame?_bind, frame?_bind, agree.frames there]
  outside {j} away := by
    have other : i ≠ j := by
      rintro rfl
      exact away inside
    rw [frame?_bind, if_neg other, agree.outside away]

variable {v : Value} (confined : v.Confined region)

include confined

theorem declare (name : String) (constant : Bool) :
    Both (Agree region origin) (h.declare i name v constant) (h'.declare i name v constant) := by
  rw [Heap.declare, Heap.declare, agree.value?_eq inside]
  split
  · exact .error _
  · exact .ok (agree.bind inside confined)

theorem assign (name : String) :
    Both (Agree region origin) (h.assign i name v) (h'.assign i name v) := by
  rw [Heap.assign, Heap.assign, agree.resolve_eq inside]
  split
  · exact .error _
  · rename_i j resolved
    -- the frame that binds the name is on the chain, so it may be written to
    have there := agree.region_of_resolve inside resolved
    rw [agree.marks_eq there]
    split
    · exact .error _
    · exact .ok (agree.bind there confined)

end Agree

end Heap

/-- Every operation within the region keeps heaps in agreement. -/
theorem heapSimulation_agree (region : FrameId → Prop) (origin : Heap) :
    HeapSimulation (.confined region) (Heap.Agree region origin) where
  size agree := agree.size
  own agree := agree.closed.later (Nat.le_refl _)
  push agree _ inside := agree.push inside
  lookup agree _ inside := agree.lookup_eq inside
  found agree _ inside _ _ := agree.confined_of_lookup inside
  declare agree _ _ inside confined := agree.declare inside confined
  assign agree _ _ inside confined := agree.assign inside confined

/-! ## Evaluation -/

/-- Heaps that agree on what can be reached agree on the region around it. -/
theorem Heap.SameOn.agree {h h' : Heap} {f : FrameId} (same : SameOn (h.Reach f) h h') :
    Agree (h.region f) h h h' where
  size := same.size
  frames := by
    rintro i (reached | none)
    · exact same.frames reached
    · rw [frame?_eq_none none, frame?_eq_none (same.size ▸ none)]
  closed := h.closed_region f
  outside _ := rfl

/-- Evaluation in heaps that agree on what can be reached. -/
theorem agree_outcome (setting : Setting) (frame : FrameId) (phrase : Phrase) (s : Machine)
    {heap' : Heap} (same : s.heap.SameOn (s.heap.Reach frame) heap') :
    let act := phrase.run setting frame
    (act.outcome { s with heap := heap' }).1 = (act.outcome s).1 ∧
      Beside (Heap.Agree (s.heap.region frame) s.heap) (act.outcome s).2
        (act.outcome { s with heap := heap' }).2 := by
  have sim := heapSimulation_agree (s.heap.region frame) s.heap
  have own : s.heap.region frame frame := .inl .start
  exact (sim.phrase setting own phrase s _ ⟨heap', same.agree, rfl⟩).outcome

/-- Evaluation sees and touches only what it can reach.  Frames that cannot be reached are unchanged
afterwards.  In another heap with as many frames, which has the same ones within reach, the same
happens: the value or error, the output and everything else but the heap are the same, and so are
the frames within reach and those that were made. -/
theorem evaluation_confined (setting : Setting) (frame : FrameId) (phrase : Phrase) (s : Machine) :
    let act := phrase.run setting frame
    let t := (act.outcome s).2
    (∀ i < s.heap.size, ¬ s.heap.Reach frame i → t.heap.frame? i = s.heap.frame? i) ∧
      ∀ heap', s.heap.SameOn (s.heap.Reach frame) heap' →
        ∃ after', act.outcome { s with heap := heap' } =
            ((act.outcome s).1, { t with heap := after' }) ∧
          t.heap.SameOn (fun i => s.heap.Reach frame i ∨ s.heap.size ≤ i) after' := by
  intro act t
  constructor
  · intro i old away
    -- the run beside itself
    obtain ⟨-, _, agree, -⟩ := agree_outcome setting frame phrase s ⟨rfl, fun _ => rfl⟩
    refine agree.outside ?_
    rintro (reached | none)
    · exact away reached
    · exact Nat.not_lt.2 none old
  · intro heap' same
    obtain ⟨result, after', agree, machine⟩ := agree_outcome setting frame phrase s same
    exact ⟨after', Prod.ext result machine, agree.toSameOn⟩

/-- A machine with a frame, and two frames in it that cannot reach each other. -/
def Machine.siblings : Machine :=
  { Machine.oneFrame with
    heap := (Machine.oneFrame.heap.push (.empty (some 0))).push (.empty (some 0)) }

theorem not_reach_sibling : ¬ Machine.siblings.heap.Reach 2 1 := by
  have around : ∀ i, Machine.siblings.heap.Reach 2 i → i = 2 ∨ i = 0 := by
    intro i reached
    induction reached with
    | start => exact .inl rfl
    | parent _ found link ih =>
      rcases ih with rfl | rfl
      · cases found
        cases link
        exact .inr rfl
      · cases found
        cases link
    -- nothing is bound yet in either frame
    | captured _ found _ ih => rcases ih with rfl | rfl <;> cases found
  intro reached
  rcases around 1 reached with same | same <;> cases same

/-- The assignment `x = nulo` in one of the siblings does not see an `x` that is bound in the other,
let alone change it. -/
theorem evaluation_confined_siblings :
    let act := (Phrase.expression (.assign default ⟨default, "x"⟩ (.null default))).run
      ⟨{}, fun _ => 0⟩ 2
    let heap' := Machine.siblings.heap.bind 1 "x" ⟨.boolean true, false⟩
    (¬ Machine.siblings.heap.Reach 2 1 ∧
        (act.outcome .siblings).2.heap.frame? 1 = Machine.siblings.heap.frame? 1) ∧
      (act.outcome { Machine.siblings with heap := heap' }).1 = (act.outcome .siblings).1 := by
  intro act heap'
  have confined := evaluation_confined ⟨{}, fun _ => 0⟩ 2
    (.expression (.assign default ⟨default, "x"⟩ (.null default))) .siblings
  have same : Machine.siblings.heap.SameOn (Machine.siblings.heap.Reach 2) heap' := by
    refine ⟨Heap.size_bind .., fun {i} reached => ?_⟩
    rw [Heap.frame?_bind, if_neg]
    rintro rfl
    exact not_reach_sibling reached
  obtain ⟨_, outcome, -⟩ := confined.2 heap' same
  have result := congrArg Prod.fst outcome
  exact ⟨⟨not_reach_sibling, confined.1 1 (by decide) not_reach_sibling⟩, result⟩

end Guion
