import Guion.Proofs.Evaluation.Ledger
import Guion.Proofs.Scope.Laws

/-!
# Chains follow the text

The frames around a frame are those of the blocks around the text that runs in it, whoever called it
and from wherever.  So in a session no chain is longer than the blocks of the texts are deep
(`chains_follow_text`), however deep the recursion and wherever functions are passed.

The ledger of a session lists the length of the chain of each frame.  A frame has room for as many
blocks as the bound leaves beyond the length of its chain, and a function is made only where there
is room for its body.
-/

set_option autoImplicit false

namespace Guion

namespace Heap

/-! ## Chains of new frames -/

theorem parent?_push {h : Heap} {i : FrameId} (old : i < h.size) (frame : Frame) :
    (h.push frame).parent? i = h.parent? i := by
  rw [parent?, frame?_push, if_neg (Nat.ne_of_lt old), parent?]

theorem chain_push {h : Heap} {i : FrameId} (old : i < h.size) (frame : Frame) :
    (h.push frame).chain i = h.chain i := by
  induction i using Nat.strongRecOn with
  | ind i ih =>
    rw [chain.eq_def (h.push frame), chain.eq_def h, parent?_push old]
    cases h.parent? i with
    | none => rfl
    | some p => exact congrArg (i :: ·) (ih p p.2 (Nat.lt_trans p.2 old))

/-- The chain of a new frame goes on with that of its parent. -/
theorem chain_push_size {h : Heap} {p : FrameId} (old : p < h.size) :
    (h.push (.empty (some p))).chain h.size = h.size :: h.chain p := by
  have parent : (h.push (.empty (some p))).parent? h.size = some ⟨p, old⟩ := by
    rw [parent?, frame?_push, if_pos rfl]
    exact dif_pos old
  rw [chain.eq_def, parent]
  exact congrArg (h.size :: ·) (chain_push old _)

end Heap

/-- The entries are the lengths of the chains, which end at the first frame and are at most `most`
frames long. -/
structure Heap.Levelled (most : Nat) (w : List Nat) (h : Heap) : Prop where
  size : h.size = w.length
  chain : ∀ {i l}, w[i]? = some l →
    (h.chain i).length = l ∧ (h.chain i).getLast? = some 0 ∧ l ≤ most

namespace Heap.Levelled

variable {most : Nat} {w : List Nat} {h : Heap} (levelled : h.Levelled most w)

include levelled

theorem bind (i : FrameId) (name : String) (binding : Binding) :
    (h.bind i name binding).Levelled most w := by
  refine ⟨(size_bind ..).trans levelled.size, fun {j l} entry => ?_⟩
  rw [chain_bind]
  exact levelled.chain entry

/-- A frame inside another has a chain one longer. -/
theorem push {i l : Nat} (entry : w[i]? = some l) (fits : l + 1 ≤ most) :
    (h.push (.empty (some i))).Levelled most (w ++ [l + 1]) := by
  have old : i < h.size := by
    rw [levelled.size]
    exact (List.getElem?_eq_some_iff.1 entry).1
  refine ⟨by rw [size_push, levelled.size, List.length_append]; rfl, fun {j k} there => ?_⟩
  rw [List.getElem?_append] at there
  split at there
  · rename_i inside
    rw [chain_push (levelled.size ▸ inside)]
    exact levelled.chain there
  · rename_i outside
    obtain ⟨last, same⟩ := List.getElem?_eq_some_iff.1 there
    have beyond : j ≤ w.length := Nat.sub_eq_zero_iff_le.1 (Nat.lt_one_iff.1 last)
    have here : j = h.size := by
      rw [levelled.size]
      exact Nat.le_antisymm beyond (Nat.le_of_not_lt outside)
    obtain ⟨length, root, -⟩ := levelled.chain entry
    rw [here, chain_push_size old, List.length_cons, length, List.getLast?_cons, root]
    simp only [List.getElem_singleton] at same
    exact ⟨same, rfl, same ▸ fits⟩

end Heap.Levelled

/-- The ledger of the lengths of chains, none of them longer than one more than `k`. -/
def Ledger.levels (k : Nat) : Ledger Nat where
  base w h _ := h.Levelled (k + 1) w
  part w v := ∀ f, v = .function f → ∃ l, w[f.frame]? = some l ∧ l + f.body.depth .blocks ≤ k + 1
  room w i n := ∃ l, w[i]? = some l ∧ l + n ≤ k + 1
  part_mono := by
    intro w w' v more entered f same
    obtain ⟨l, entry, fits⟩ := entered f same
    exact ⟨l, getElem?_of_prefix more entry, fits⟩
  room_mono := by
    rintro w w' i n more ⟨l, entry, fits⟩
    exact ⟨l, getElem?_of_prefix more entry, fits⟩
  room_le := by
    rintro w i m n ⟨l, entry, fits⟩ less
    exact ⟨l, entry, Nat.le_trans (Nat.add_le_add_left less l) fits⟩
  part_of_none := by
    rintro w _ none f rfl
    cases none
  room_of_part entered := entered _ rfl
  base_bind levelled := levelled.bind
  enterFrame := by
    rintro w h n i m levelled ⟨l, entry, fits⟩
    refine ⟨w ++ [l + 1], List.prefix_append _ _, levelled.push entry (by omega), l + 1, ?_, ?_⟩
    · simp [levelled.size]
    · omega
  enterFunction := by
    intro w h n i body levelled room name parameters
    refine ⟨w, List.prefix_refl w, levelled, fun f same => ?_⟩
    cases same
    exact room
  enterObject levelled properties := ⟨_, List.prefix_refl _, levelled, fun _ same => by cases same⟩

/-- The largest number of blocks inside one another in any of the texts. -/
def deepestBlocks (limit : Nat) (sources : List String) : Nat :=
  (sources.map fun source => (parse limit source).program.depth .blocks).foldr max 0

theorem depth_le_deepestBlocks {limit : Nat} {source : String} {sources : List String}
    (listed : source ∈ sources) :
    (parse limit source).program.depth .blocks ≤ deepestBlocks limit sources := by
  induction sources with
  | nil => cases listed
  | cons first rest ih =>
    rcases List.mem_cons.1 listed with rfl | later
    · exact Nat.le_max_left _ _
    · exact Nat.le_trans (ih later) (Nat.le_max_right _ _)

theorem Session.described_start (k : Nat) (setting : Setting) (capacity : Option Nat) :
    (Ledger.levels k).Describes [1] (start setting capacity).machine.heap
      (start setting capacity).machine.fresh := by
  constructor
  · refine ⟨rfl, fun {i l} entry => ?_⟩
    obtain ⟨first, same⟩ := List.getElem?_eq_some_iff.1 entry
    obtain rfl : i = 0 := Nat.lt_one_iff.1 first
    have alone : (start setting capacity).machine.heap.chain 0 = [0] := by
      rw [Heap.chain]
      rfl
    rw [alone]
    exact ⟨same, rfl, same ▸ Nat.le_add_left 1 k⟩
  · intro i name binding found
    exact forall_binding?_start (P := fun _ => (Ledger.levels k).value [1])
      (Ledger.value_boolean _) (Ledger.value_boolean _) Ledger.value_null
      (Ledger.value_native _) (Ledger.value_native _) setting capacity i name binding found

/-- **Chains follow the text.**  In a session, whatever became of its texts, the chain of every
frame that was ever made ends at the global frame, and has at most one frame more than there are
blocks inside one another in any of the texts. -/
theorem chains_follow_text (setting : Setting) (capacity : Option Nat) (sources : List String) :
    let session := (Session.start setting capacity).after sources
    ∀ i < session.machine.heap.size,
      (session.machine.heap.chain i).getLast? = some session.globals ∧
        (session.machine.heap.chain i).length ≤
          1 + deepestBlocks setting.limits.nesting sources := by
  intro session i made
  have along := Session.along_after keeps_grows (Session.start setting capacity) sources
  have fits : ∀ source ∈ sources,
      (Ledger.levels (deepestBlocks setting.limits.nesting sources)).Fits [1]
        (Session.start setting capacity) source := by
    intro source listed _
    refine ⟨1, rfl, ?_⟩
    rw [Nat.add_comm]
    exact Nat.add_le_add_right (depth_le_deepestBlocks listed) 1
  obtain ⟨w, -, described⟩ :=
    Ledger.exists_after (Session.described_start _ setting capacity) fits
  have entered : i < w.length := described.base.size ▸ made
  obtain ⟨length, root, short⟩ := described.base.chain (List.getElem?_eq_getElem entered)
  rw [along.globals, Nat.add_comm, length]
  exact ⟨root, short⟩

end Guion
