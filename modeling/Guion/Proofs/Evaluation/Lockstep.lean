import Guion.Proofs.Evaluation.Termination

/-!
# Runs in lockstep

Evaluation reaches the heap through four operations only: it adds a frame, looks a name up, declares
one and assigns to one.  If these four keep two heaps related and give the same answers on both
(`HeapSimulation`), then the evaluations of one program from machines that differ in such heaps only
go in lockstep: they end with the same value or the same error, in machines that again differ in
related heaps only (`HeapSimulation.phrase`).

A property of one heap is the relation of the heap to itself, so invariants of the heap along a run
are simulations as well (`HeapSimulation.ofInvariant`).
-/

set_option autoImplicit false

namespace Guion

open Run Bounded

variable {α β : Type} {S : Machine → Machine → Prop} {A : α → Prop} {B : β → Prop}

/-- The two runs end with one value, which is in `A`, or for one reason, and in related machines. -/
inductive Alike (S : Machine → Machine → Prop) (A : α → Prop) :
    EStateM.Result (Stop RuntimeError) Machine α →
      EStateM.Result (Stop RuntimeError) Machine α → Prop
  | ok {a : α} {t t' : Machine} : A a → S t t' → Alike S A (.ok a t) (.ok a t')
  | error {stop : Stop RuntimeError} {t t' : Machine} : S t t' →
      Alike S A (.error stop t) (.error stop t')

theorem Alike.final {r r' : EStateM.Result (Stop RuntimeError) Machine α} (h : Alike S A r r') :
    S (final r) (final r') := by
  cases h with
  | ok _ related => exact related
  | error related => exact related

theorem Alike.outcome {p q : Run α} {s s' : Machine} (h : Alike S A (p s) (q s')) :
    (q.outcome s').1 = (p.outcome s).1 ∧ S (p.outcome s).2 (q.outcome s').2 := by
  simp only [Run.outcome]
  generalize p s = r, q s' = r' at h
  cases h with
  | ok _ related => exact ⟨rfl, related⟩
  | @error stop _ _ related => cases stop <;> exact ⟨rfl, related⟩

/-- From related machines the two computations end alike. -/
def Lockstep (S : Machine → Machine → Prop) (α : Type) (A : α → Prop) (p q : Run α) : Prop :=
  ∀ s s', S s s' → Alike S A (p s) (q s')

theorem Lockstep.bind {p q : Run α} {f g : α → Run β} (first : Lockstep S α A p q)
    (rest : ∀ a, A a → Lockstep S β B (f a) (g a)) : Lockstep S β B (p >>= f) (q >>= g) := by
  intro s s' related
  have ends := first s s' related
  cases run : p s with
  | ok a t =>
    cases run' : q s' with
    | ok a' t' =>
      rw [run, run'] at ends
      rw [bind_of_ok run, bind_of_ok run']
      cases ends with
      | ok known related => exact rest a known t t' related
    | error stop' t' =>
      rw [run, run'] at ends
      cases ends
  | error stop t =>
    cases run' : q s' with
    | ok a' t' =>
      rw [run, run'] at ends
      cases ends
    | error stop' t' =>
      rw [run, run'] at ends
      rw [bind_of_error run, bind_of_error run']
      cases ends with
      | error related => exact .error related

theorem Alike.ensuring {p q : Run α} {s s' : Machine} {after : Machine → Machine}
    (h : Alike S A (p s) (q s')) (kept : ∀ t t', S t t' → S (after t) (after t')) :
    Alike S A (ensuring after p s) (ensuring after q s') := by
  simp only [Bounded.ensuring]
  generalize p s = r, q s' = r' at h
  cases h with
  | ok known related => exact .ok known (kept _ _ related)
  | error related => exact .error (kept _ _ related)

/-! ## Machines that differ in their heaps -/

variable {H : Heap → Heap → Prop}

/-- The machines differ in their heaps only, and these are related. -/
def Beside (H : Heap → Heap → Prop) (s s' : Machine) : Prop :=
  ∃ heap', H s.heap heap' ∧ s' = { s with heap := heap' }

theorem Lockstep.nested {p q : Run α} (limits : Limits) (h : Lockstep (Beside H) α A p q) :
    Lockstep (Beside H) α A (nested limits p) (nested limits q) := by
  rintro s _ ⟨heap', related, rfl⟩
  rw [nested_apply, nested_apply]
  by_cases full : limits.evaluation ≤ s.depth
  · rw [if_pos full, if_pos full]
    exact .error ⟨heap', related, rfl⟩
  · rw [if_neg full, if_neg full]
    apply (h { s with depth := s.depth + 1 } _ ⟨heap', related, rfl⟩).ensuring
    rintro t _ ⟨heap', related, rfl⟩
    exact ⟨heap', related, rfl⟩

theorem Lockstep.calling {p q : Run α} (h : Lockstep (Beside H) α A p q) :
    Lockstep (Beside H) α A (calling p) (calling q) := by
  rintro s _ ⟨heap', related, rfl⟩
  apply (h { s with calls := s.calls + 1 } _ ⟨heap', related, rfl⟩).ensuring
  rintro t _ ⟨heap', related, rfl⟩
  exact ⟨heap', related, rfl⟩

theorem Lockstep.admitted {p q : Run α} (limits : Limits) (h : Lockstep (Beside H) α A p q) :
    Lockstep (Beside H) α A (admitted limits p) (admitted limits q) := by
  rintro s _ ⟨heap', related, rfl⟩
  rw [admitted_apply, admitted_apply]
  by_cases full : limits.calls ≤ s.calls
  · rw [if_pos full, if_pos full]
    exact .error ⟨heap', related, rfl⟩
  · rw [if_neg full, if_neg full]
    exact h _ _ ⟨heap', related, rfl⟩

theorem lockstep_write (text : String) :
    Lockstep (Beside H) Unit (fun _ => True) (write text) (write text) := by
  rintro s _ ⟨heap', related, rfl⟩
  rw [write_apply, write_apply]
  by_cases room : s.sink.accepts text
  · rw [if_pos room, if_pos room]
    exact .ok trivial ⟨heap', related, rfl⟩
  · rw [if_neg room, if_neg room]
    exact .error ⟨heap', related, rfl⟩

/-! ## Heaps -/

/-- Both operations succeed with related heaps, or both fail with one error. -/
inductive Both (H : Heap → Heap → Prop) :
    Except RuntimeError Heap → Except RuntimeError Heap → Prop
  | ok {h h' : Heap} : H h h' → Both H (.ok h) (.ok h')
  | error (e : RuntimeError) : Both H (.error e) (.error e)

/-- The operations on heaps keep them related and answer alike, as long as they are used within the
realm. -/
structure HeapSimulation (realm : Realm) (H : Heap → Heap → Prop) : Prop where
  size : ∀ {h h'}, H h h' → h'.size = h.size
  own : ∀ {h h'}, H h h' → realm.own h.size
  push : ∀ {h h'}, H h h' → ∀ {i}, realm.frame i →
    H (h.push (.empty (some i))) (h'.push (.empty (some i)))
  lookup : ∀ {h h'}, H h h' → ∀ {i}, realm.frame i → ∀ name, h'.lookup i name = h.lookup i name
  found : ∀ {h h'}, H h h' → ∀ {i}, realm.frame i → ∀ {name v}, h.lookup i name = .ok v →
    realm.value v
  declare : ∀ {h h'}, H h h' → ∀ {i v}, realm.own i → realm.value v → ∀ name constant,
    Both H (h.declare i name v constant) (h'.declare i name v constant)
  assign : ∀ {h h'}, H h h' → ∀ {i v}, realm.frame i → realm.value v → ∀ name,
    Both H (h.assign i name v) (h'.assign i name v)

namespace HeapSimulation

variable {realm : Realm}

/-- A property of heaps that the operations keep. -/
theorem ofInvariant {I : Heap → Prop} (all : ∀ v, realm.value v)
    (own : ∀ {h}, I h → realm.own h.size)
    (push : ∀ {h}, I h → ∀ {i}, realm.frame i → I (h.push (.empty (some i))))
    (declare : ∀ {h k}, I h → ∀ {i name v constant}, realm.own i →
      h.declare i name v constant = .ok k → I k)
    (assign : ∀ {h k}, I h → ∀ {i name v}, h.assign i name v = .ok k → I k) :
    HeapSimulation realm fun h h' => h' = h ∧ I h where
  size := by
    rintro _ h ⟨rfl, -⟩
    rfl
  own related := own related.2
  push := by
    rintro _ h ⟨rfl, kept⟩ i inside
    exact ⟨rfl, push kept inside⟩
  lookup := by
    rintro _ h ⟨rfl, -⟩ i - name
    rfl
  found _ _ _ _ v _ := all v
  declare := by
    rintro _ h ⟨rfl, kept⟩ i v inside - name constant
    cases result : h.declare i name v constant with
    | ok k => exact .ok ⟨rfl, declare kept inside result⟩
    | error e => exact .error e
  assign := by
    rintro _ h ⟨rfl, kept⟩ i v - - name
    cases result : h.assign i name v with
    | ok k => exact .ok ⟨rfl, assign kept result⟩
    | error e => exact .error e

variable (sim : HeapSimulation realm H)

include sim

theorem lockstep_declare {i : FrameId} {v : Value} (name : String) (constant : Bool)
    (inside : realm.own i) (known : realm.value v) :
    Lockstep (Beside H) Value realm.value (Run.declare i name v constant)
      (Run.declare i name v constant) := by
  rintro s _ ⟨heap', related, rfl⟩
  have both := sim.declare related inside known name constant
  simp only [Run.declare]
  generalize s.heap.declare i name v constant = r, heap'.declare i name v constant = r' at both
  cases both with
  | ok related => exact .ok known ⟨_, related, rfl⟩
  | error e => exact .error ⟨heap', related, rfl⟩

theorem lockstep_assign {i : FrameId} {v : Value} (name : String) (inside : realm.frame i)
    (known : realm.value v) :
    Lockstep (Beside H) Value realm.value (Run.assign i name v) (Run.assign i name v) := by
  rintro s _ ⟨heap', related, rfl⟩
  have both := sim.assign related inside known name
  simp only [Run.assign]
  generalize s.heap.assign i name v = r, heap'.assign i name v = r' at both
  cases both with
  | ok related => exact .ok known ⟨_, related, rfl⟩
  | error e => exact .error ⟨heap', related, rfl⟩

theorem lockstep_lookup {i : FrameId} (name : String) (inside : realm.frame i) :
    Lockstep (Beside H) Value realm.value (Run.lookup i name) (Run.lookup i name) := by
  rintro s _ ⟨heap', related, rfl⟩
  rw [lookup_apply, lookup_apply, sim.lookup related inside]
  cases found : s.heap.lookup i name with
  | ok v => exact .ok (sim.found related inside found) ⟨heap', related, rfl⟩
  | error e => exact .error ⟨heap', related, rfl⟩

theorem lockstep_newFrame {i : FrameId} (inside : realm.frame i) :
    Lockstep (Beside H) FrameId realm.own (newFrame (.empty (some i)))
      (newFrame (.empty (some i))) := by
  rintro s _ ⟨heap', related, rfl⟩
  show Alike (Beside H) realm.own
    (.ok s.heap.size { s with heap := s.heap.push (.empty (some i)) })
    (.ok heap'.size { s with heap := heap'.push (.empty (some i)) })
  rw [sim.size related]
  exact .ok (sim.own related) ⟨_, sim.push related inside, rfl⟩

theorem relates (setting : Setting) : Relates realm setting setting (Lockstep (Beside H)) where
  pure known _ _ related := .ok known related
  fail _ _ _ related := .error related
  bind := .bind
  newFrame := sim.lockstep_newFrame
  newIdentity := by
    rintro s _ ⟨heap', related, rfl⟩
    exact .ok trivial ⟨heap', related, rfl⟩
  lookup := sim.lockstep_lookup
  declare := sim.lockstep_declare
  assign := sim.lockstep_assign
  write := lockstep_write
  readClock := by
    rintro s _ ⟨heap', related, rfl⟩
    exact .ok trivial ⟨heap', related, rfl⟩
  admitted := .admitted _

theorem expression (setting : Setting) (bound : Nat) (e : Expression) (frame : FrameId)
    (inside : realm.frame frame) :
    Lockstep (Beside H) Value realm.value (Run.expression setting bound e frame)
      (Run.expression setting bound e frame) := by
  induction bound generalizing e frame with
  | zero =>
    intro s s' related
    exact .error related
  | succ bound ih =>
    have C := sim.relates setting
    -- a body runs in the frame of its call, which is new and so the evaluation's own
    refine .nested _ (C.node ih (fun called ss own => ?_) inside e)
    exact (Lockstep.nested _ (C.statements ih own realm.null ss)).calling

/-- Evaluations of one expression go in lockstep. -/
theorem evaluate (setting : Setting) (e : Expression) (frame : FrameId)
    (inside : realm.frame frame) :
    Lockstep (Beside H) Value realm.value (evaluate setting e frame)
      (evaluate setting e frame) := by
  rintro s _ ⟨heap', related, rfl⟩
  -- the bound is read off the depth, which is the same on both sides
  exact sim.expression setting _ e frame inside s _ ⟨heap', related, rfl⟩

theorem phrase (setting : Setting) {frame : FrameId} (own : realm.own frame) (phrase : Phrase) :
    Lockstep (Beside H) Value realm.value (phrase.run setting frame)
      (phrase.run setting frame) :=
  (sim.relates setting).phrase (sim.evaluate setting) own phrase

end HeapSimulation

end Guion
