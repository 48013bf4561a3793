import Guion.Proofs.Evaluation.Termination
import Guion.Proofs.Program.Depth
import Guion.Proofs.Scope.Constants

/-!
# Ledgers

What evaluation makes, it makes for good: a frame keeps its place, and an object or a function its
identity.  A ledger lists what was made so far, one entry each, and only grows.  Its entries account
for the objects and functions that come up and give frames room for text to run; what they account
for once, they do so for good.

If each step that makes something can be entered in the ledger (`Ledger`), then evaluation goes from
a machine that the entries describe to one described by more entries, which account for its value as
well (`Ledger.upholds_program`).  So a session is described by entries throughout
(`Ledger.exists_after`).

Text is given room by the blocks in it, one inside the other: a block runs in a frame of its own,
which has room for one block less.
-/

set_option autoImplicit false

namespace Guion

open Run Bounded

/-! ## Parts of values -/

/-- The value is `v`, a part of a property of `v` or a part of what `v` is the signal of. -/
inductive Value.Occurs (u : Value) : Value → Prop
  | self : Occurs u u
  | object {identity : Identity} {properties : List (String × Value)} {entry : String × Value} :
      entry ∈ properties → Occurs u entry.2 → Occurs u (.object identity properties)
  | returned {v : Value} : Occurs u v → Occurs u (.returned v)

/-- What tells the value apart from others of the same content, if anything. -/
def Value.identity? : Value → Option Identity
  | .object identity _ => some identity
  | .function f => some f.identity
  | _ => none

/-! ## Entries -/

/-- Entries stay where they are as others are added. -/
theorem getElem?_of_prefix {X : Type} {w w' : List X} {i : Nat} {x : X} (more : w <+: w')
    (entry : w[i]? = some x) : w'[i]? = some x := by
  obtain ⟨rest, rfl⟩ := more
  rwa [List.getElem?_append_left (List.getElem?_eq_some_iff.1 entry).1]

/-- How entries describe what was made. -/
structure Ledger (X : Type) where
  /-- The entries describe the frames, and so many identities given. -/
  base : List X → Heap → Identity → Prop
  /-- The entries account for the value itself, whatever its parts. -/
  part : List X → Value → Prop
  /-- In the frame, text may run with so many blocks inside one another. -/
  room : List X → FrameId → Nat → Prop
  part_mono : ∀ {w w' v}, w <+: w' → part w v → part w' v
  room_mono : ∀ {w w' i n}, w <+: w' → room w i n → room w' i n
  room_le : ∀ {w i m n}, room w i n → m ≤ n → room w i m
  /-- A value that was not made needs no entry. -/
  part_of_none : ∀ {w v}, v.identity? = none → part w v
  /-- Where a function was made, there is room for its body. -/
  room_of_part : ∀ {w f}, part w (.function f) → room w f.frame (f.body.depth .blocks)
  base_bind : ∀ {w h n}, base w h n → ∀ i name binding, base w (h.bind i name binding) n
  enterFrame : ∀ {w h n i k}, base w h n → room w i (k + 1) →
    ∃ w', w <+: w' ∧ base w' (h.push (.empty (some i))) n ∧ room w' h.size k
  enterFunction : ∀ {w h n i body}, base w h n → room w i (body.depth .blocks) →
    ∀ name parameters, ∃ w', w <+: w' ∧ base w' h (n + 1) ∧
      part w' (.function ⟨n, name, parameters, body, i⟩)
  enterObject : ∀ {w h n}, base w h n → ∀ properties,
    ∃ w', w <+: w' ∧ base w' h (n + 1) ∧ part w' (.object n properties)

namespace Ledger

variable {X : Type} (L : Ledger X) {w w' : List X}

/-- The entries account for the value and its parts. -/
def value (w : List X) (v : Value) : Prop := ∀ u : Value, u.Occurs v → L.part w u

/-- The entries describe the frames and the identities given, and account for all bound values. -/
structure Describes (w : List X) (h : Heap) (n : Identity) : Prop where
  base : L.base w h n
  bound : ∀ {i name binding}, h.binding? i name = some binding → L.value w binding.value

variable {L}

section Values

variable {v result : Value}

theorem value_mono (more : w <+: w') (known : L.value w v) : L.value w' v :=
  fun u occurs => L.part_mono more (known u occurs)

/-- A value without parts that was not made. -/
theorem value_of_simple (none : v.identity? = none) (alone : ∀ u : Value, u.Occurs v → u = v) :
    L.value w v := by
  intro u occurs
  rw [alone u occurs]
  exact L.part_of_none none

theorem value_null : L.value w .null := value_of_simple rfl fun _ occurs => by cases occurs; rfl

theorem value_boolean (b : Bool) : L.value w (.boolean b) :=
  value_of_simple rfl fun _ occurs => by cases occurs; rfl

theorem value_number (x : Float) : L.value w (.number x) :=
  value_of_simple rfl fun _ occurs => by cases occurs; rfl

theorem value_string (text : String) : L.value w (.string text) :=
  value_of_simple rfl fun _ occurs => by cases occurs; rfl

theorem value_native (function : Native) : L.value w (.native function) :=
  value_of_simple rfl fun _ occurs => by cases occurs; rfl

theorem value_function {f : Closure} (entered : L.part w (.function f)) :
    L.value w (.function f) := by
  intro u occurs
  cases occurs
  exact entered

theorem value_object {identity : Identity} {properties : List (String × Value)}
    (entered : L.part w (.object identity properties))
    (known : ∀ entry ∈ properties, L.value w entry.2) :
    L.value w (.object identity properties) := by
  intro u occurs
  cases occurs with
  | self => exact entered
  | object listed inner => exact known _ listed u inner

theorem value_returned : L.value w (.returned v) ↔ L.value w v := by
  constructor
  · exact fun known u occurs => known u (.returned occurs)
  · intro known u occurs
    cases occurs with
    | self => exact L.part_of_none rfl
    | returned inner => exact known u inner

theorem value_unwrapped (known : L.value w v) : L.value w v.unwrapped := by
  cases v with
  | returned v => exact value_returned.1 known
  | _ => exact known

theorem value_unary {op : UnaryOp} (h : op.apply v = .ok result) : L.value w result := by
  unfold UnaryOp.apply at h
  split at h <;> cases h
  · exact value_boolean _
  · exact value_number _

theorem value_binary {op : BinaryOp} {u : Value} (h : op.apply v u = .ok result) :
    L.value w result := by
  unfold BinaryOp.apply at h
  split at h
  · cases h
    exact value_boolean _
  · cases h
    exact value_boolean _
  · split at h <;> cases h
    exact value_number _
  · cases h
    cases op with
    | add | sub | mul | div => exact value_number _
    | _ => exact value_boolean _
  · cases h

theorem value_member {key : String} (known : L.value w v) (read : v.member key = .ok result) :
    L.value w result := by
  cases v with
  | object identity properties =>
    cases read
    cases found : Table.find? key properties with
    | none => exact value_null
    | some value => exact fun u occurs => known u (.object (Table.mem_of_find? found) occurs)
  | _ => cases read

end Values

namespace Describes

variable {h : Heap} {n : Identity} (described : L.Describes w h n)

include described

/-- Entries for something new, with the bindings as they were. -/
theorem enter {n' : Identity} (more : w <+: w') (base : L.base w' h n') : L.Describes w' h n' :=
  ⟨base, fun found => value_mono more (described.bound found)⟩

theorem push {i : FrameId} (more : w <+: w') (base : L.base w' (h.push (.empty (some i))) n) :
    L.Describes w' (h.push (.empty (some i))) n := by
  refine ⟨base, fun {j name binding} found => ?_⟩
  rw [Heap.binding?, Heap.frame?_push] at found
  split at found
  · cases found
  · exact value_mono more (described.bound found)

theorem bind {v : Value} (known : L.value w v) (i : FrameId) (name : String) (constant : Bool) :
    L.Describes w (h.bind i name ⟨v, constant⟩) n := by
  refine ⟨L.base_bind described.base _ _ _, fun {j query binding} found => ?_⟩
  rw [Heap.binding?_bind] at found
  split at found
  · cases found
    exact known
  · exact described.bound found

end Describes

variable {α β : Type} {A : List X → α → Prop} {B : List X → β → Prop}

variable (L) in
/-- The run ends in a machine that is described with more entries, and its value, if it has one, is
in `A` there. -/
inductive Entered (w : List X) (A : List X → α → Prop) :
    EStateM.Result (Stop RuntimeError) Machine α → Prop
  | ok {a : α} {t : Machine} (w' : List X) : w <+: w' → L.Describes w' t.heap t.fresh → A w' a →
      Entered w A (.ok a t)
  | error {stop : Stop RuntimeError} {t : Machine} (w' : List X) : w <+: w' →
      L.Describes w' t.heap t.fresh → Entered w A (.error stop t)

variable (L) in
/-- From every machine that `w` describes, the run of `p` is entered. -/
def Upholds (w : List X) (A : List X → α → Prop) (p : Run α) : Prop :=
  ∀ s : Machine, L.Describes w s.heap s.fresh → L.Entered w A (p s)

/-! ## Steps -/

theorem Entered.after {r : EStateM.Result (Stop RuntimeError) Machine α}
    (h : L.Entered w' A r) (more : w <+: w') : L.Entered w A r := by
  cases h with
  | ok w'' further described known => exact .ok w'' (more.trans further) described known
  | error w'' further described => exact .error w'' (more.trans further) described

theorem Upholds.bind {p : Run α} {f : α → Run β} (first : L.Upholds w A p)
    (rest : ∀ w' a, w <+: w' → A w' a → L.Upholds w' B (f a)) : L.Upholds w B (p >>= f) := by
  intro s described
  have entered := first s described
  cases run : p s with
  | ok a t =>
    rw [run] at entered
    rw [bind_of_ok run]
    cases entered with
    | ok w' more described known => exact (rest w' a more known t described).after more
  | error stop t =>
    rw [run] at entered
    rw [bind_of_error run]
    cases entered with
    | error w' more described => exact .error w' more described

theorem upholds_pure {a : α} (known : A w a) : L.Upholds w A (pure a) :=
  fun _ described => .ok w (List.prefix_refl w) described known

theorem upholds_fail (cause : RuntimeError) : L.Upholds w A (fail cause) :=
  fun _ described => .error w (List.prefix_refl w) described

theorem upholds_ofExcept {result : Except RuntimeError α} (known : ∀ a, result = .ok a → A w a) :
    L.Upholds w A (ofExcept result) := by
  cases result with
  | ok a => exact upholds_pure (known a rfl)
  | error cause => exact upholds_fail cause

theorem Entered.ensuring {p : Run α} {s : Machine} {after : Machine → Machine}
    (h : L.Entered w A (p s)) (kept : ∀ t, (after t).heap = t.heap ∧ (after t).fresh = t.fresh) :
    L.Entered w A (ensuring after p s) := by
  rw [Bounded.ensuring]
  generalize p s = r at h
  cases h with
  | @ok a t w' more described known =>
    rw [← (kept t).1, ← (kept t).2] at described
    exact .ok w' more described known
  | @error stop t w' more described =>
    rw [← (kept t).1, ← (kept t).2] at described
    exact .error w' more described

theorem Upholds.nested {p : Run α} (h : L.Upholds w A p) (limits : Limits) :
    L.Upholds w A (nested limits p) := by
  intro s described
  rw [nested_apply]
  split
  · exact .error w (List.prefix_refl w) described
  · exact (h { s with depth := s.depth + 1 } described).ensuring fun _ => ⟨rfl, rfl⟩

theorem Upholds.calling {p : Run α} (h : L.Upholds w A p) : L.Upholds w A (calling p) :=
  fun s described =>
    (h { s with calls := s.calls + 1 } described).ensuring fun _ => ⟨rfl, rfl⟩

theorem Upholds.admitted {p : Run α} (h : L.Upholds w A p) (limits : Limits) :
    L.Upholds w A (admitted limits p) := by
  intro s described
  rw [admitted_apply]
  split
  · exact .error w (List.prefix_refl w) described
  · exact h s described

theorem upholds_lookup (frame : FrameId) (name : String) :
    L.Upholds w L.value (lookup frame name) := by
  intro s described
  rw [lookup_apply]
  cases found : s.heap.lookup frame name with
  | error e => exact .error w (List.prefix_refl w) described
  | ok v =>
    obtain ⟨_, -, _, there⟩ := Heap.exists_binding?_of_lookup found
    exact .ok w (List.prefix_refl w) described (described.bound there)

theorem upholds_declare (frame : FrameId) (name : String) {v : Value} (constant : Bool)
    (known : L.value w v) : L.Upholds w L.value (declare frame name v constant) := by
  intro s described
  rw [Run.declare]
  cases done : s.heap.declare frame name v constant with
  | error e => exact .error w (List.prefix_refl w) described
  | ok k =>
    obtain ⟨-, rfl⟩ := Heap.declare_eq_ok done
    exact .ok w (List.prefix_refl w) (described.bind known _ _ _) known

theorem upholds_assign (frame : FrameId) (name : String) {v : Value} (known : L.value w v) :
    L.Upholds w L.value (assign frame name v) := by
  intro s described
  rw [Run.assign]
  cases done : s.heap.assign frame name v with
  | error e => exact .error w (List.prefix_refl w) described
  | ok k =>
    obtain ⟨_, _, -, -, -, rfl⟩ := Heap.assign_eq_ok done
    exact .ok w (List.prefix_refl w) (described.bind known _ _ _) known

theorem upholds_newFrame {i : FrameId} {k : Nat} (room : L.room w i (k + 1)) :
    L.Upholds w (fun w' own => L.room w' own k) (newFrame (.empty (some i))) := by
  intro s described
  obtain ⟨w', more, base, own⟩ := L.enterFrame described.base room
  exact .ok w' more (described.push more base) own

theorem upholds_closure {frame : FrameId} {body : Block}
    (room : L.room w frame (body.depth .blocks)) (name : Option String)
    (parameters : List Identifier) :
    L.Upholds w L.value (closure frame name parameters body) := by
  intro s described
  obtain ⟨w', more, base, entered⟩ := L.enterFunction described.base room name _
  exact .ok w' more (described.enter more base) (value_function entered)

theorem upholds_newObject {properties : List (String × Value)}
    (known : ∀ entry ∈ properties, L.value w entry.2) :
    L.Upholds w L.value (do return .object (← newIdentity) properties) := by
  intro s described
  obtain ⟨w', more, base, entered⟩ := L.enterObject described.base properties
  refine .ok w' more (described.enter more base) (value_object entered fun entry listed => ?_)
  exact value_mono more (known entry listed)

theorem upholds_write (text : String) : L.Upholds w (fun _ _ => True) (write text) := by
  intro s described
  rw [write_apply]
  split
  · exact .ok w (List.prefix_refl w) described trivial
  · exact .error w (List.prefix_refl w) described

theorem upholds_readClock (setting : Setting) :
    L.Upholds w (fun _ _ => True) (readClock setting) :=
  fun _ described => .ok w (List.prefix_refl w) described trivial

theorem upholds_callNative (setting : Setting) (function : Native) (arguments : List Value) :
    L.Upholds w L.value (callNative setting function arguments) := by
  cases function with
  | imprimir =>
    apply (upholds_write _).bind
    intro _ _ _ _
    apply (upholds_write _).bind
    intro _ _ _ _
    exact upholds_pure value_null
  | tiempo =>
    apply (upholds_readClock setting).bind
    intro _ _ _ _
    refine upholds_ofExcept fun v read => ?_
    obtain ⟨x, rfl⟩ := exists_of_elapsed read
    exact value_number x

theorem upholds_bindParameters (frame : FrameId) (names : List String) {arguments : List Value}
    (known : ∀ v ∈ arguments, L.value w v) :
    L.Upholds w (fun _ _ => True) (bindParameters frame names arguments) := by
  induction names generalizing arguments w with
  | nil => exact upholds_pure trivial
  | cons name names ih =>
    have first : L.value w (arguments.headD .null) := by
      cases arguments with
      | nil => exact value_null
      | cons v rest => exact known v List.mem_cons_self
    apply (upholds_declare frame name false first).bind
    intro w' _ more _
    exact ih fun v later => value_mono more (known v (List.mem_of_mem_tail later))

/-! ## The walk over programs -/

/-- Evaluations of expressions are entered where there is room for them. -/
def Inner (L : Ledger X) (eval : Evaluator) : Prop :=
  ∀ w e frame, L.room w frame (e.depth .blocks) → L.Upholds w L.value (eval e frame)

namespace Inner

variable {eval : Evaluator} (inner : L.Inner eval) {frame : FrameId}

include inner

theorem optional {value : Option Expression}
    (room : L.room w frame (Expression.depthOption .blocks value)) :
    L.Upholds w L.value (optional eval frame value) := by
  cases value with
  | none => exact upholds_pure value_null
  | some e => exact inner w e frame room

theorem statement {s : Statement} (room : L.room w frame (s.depth .blocks)) :
    L.Upholds w L.value (statement eval frame s) := by
  cases s with
  | expression _ e => exact inner w e frame (L.room_le room (Nat.le_add_left _ _))
  | declaration _ name value constant =>
    apply (inner.optional (L.room_le room (Nat.le_add_left _ _))).bind
    intro _ _ _ known
    exact upholds_declare frame _ constant known
  | function _ name parameters body =>
    apply (upholds_closure (L.room_le room (Nat.le_add_left _ _)) _ parameters).bind
    intro _ _ _ known
    exact upholds_declare frame _ true known
  | result _ value =>
    apply (inner.optional (L.room_le room (Nat.le_add_left _ _))).bind
    intro _ _ _ known
    exact upholds_pure (value_returned.2 known)

theorem statements {last : Value} (known : L.value w last) {ss : List Statement}
    (room : L.room w frame (Statement.depthAll .blocks ss)) :
    L.Upholds w L.value (statements eval frame last ss) := by
  induction ss generalizing w last with
  | nil => exact upholds_pure known
  | cons s ss ih =>
    apply (inner.statement (L.room_le room (Nat.le_max_left _ _))).bind
    intro w' value more known
    have rest := L.room_mono more (L.room_le room (Nat.le_max_right _ _))
    -- a returned value ends the sequence, any other is passed on
    cases value with
    | returned value => exact upholds_pure known
    | _ => exact ih known rest

/-- A block runs in a frame of its own, and what is inside it needs room for one block less. -/
theorem block {body : Block} (room : L.room w frame (body.depth .blocks)) :
    L.Upholds w L.value (block eval frame body) := by
  obtain ⟨token, ss⟩ := body
  have inside : L.room w frame (Statement.depthAll .blocks ss + 1) := by
    rwa [Nat.add_comm]
  apply (upholds_newFrame inside).bind
  intro _ own _ room
  exact inner.statements value_null room

theorem conditional {condition : Expression} {consequence : Block} {alternative : Option Block}
    (first : L.room w frame (condition.depth .blocks))
    (second : L.room w frame (consequence.depth .blocks))
    (third : L.room w frame (Block.depthOption .blocks alternative)) :
    L.Upholds w L.value (conditional eval frame condition consequence alternative) := by
  apply (inner w condition frame first).bind
  intro w' value more _
  cases value with
  | boolean holds =>
    cases holds with
    | true => exact inner.block (L.room_mono more second)
    | false =>
      cases alternative with
      | none => exact upholds_pure value_null
      | some body => exact inner.block (L.room_mono more third)
  | _ => exact upholds_fail _

theorem values {es : List Expression} (room : L.room w frame (Expression.depthAll .blocks es)) :
    L.Upholds w (fun w' vs => ∀ v ∈ vs, L.value w' v) (values eval frame es) := by
  induction es generalizing w with
  | nil => exact upholds_pure nofun
  | cons e es ih =>
    apply (inner w e frame (L.room_le room (Nat.le_max_left _ _))).bind
    intro w' v more known
    apply (ih (L.room_mono more (L.room_le room (Nat.le_max_right _ _)))).bind
    intro w'' vs further all
    exact upholds_pure (List.forall_mem_cons.2 ⟨value_mono further known, all⟩)

theorem properties {ps : List Property} (room : L.room w frame (Property.depthAll .blocks ps)) :
    L.Upholds w (fun w' entries => ∀ entry ∈ entries, L.value w' entry.2)
      (properties eval frame ps) := by
  induction ps generalizing w with
  | nil => exact upholds_pure nofun
  | cons p ps ih =>
    obtain ⟨key, value⟩ := p
    have rest := L.room_le room (Nat.le_max_right _ _)
    -- the value is given by an expression or by the variable of that name
    cases value with
    | none =>
      apply (upholds_lookup frame _).bind
      intro w' v more known
      apply (ih (L.room_mono more rest)).bind
      intro w'' entries further all
      exact upholds_pure (List.forall_mem_cons.2 ⟨value_mono further known, all⟩)
    | some e =>
      apply (inner w e frame (L.room_le room (Nat.le_max_left _ _))).bind
      intro w' v more known
      apply (ih (L.room_mono more rest)).bind
      intro w'' entries further all
      exact upholds_pure (List.forall_mem_cons.2 ⟨value_mono further known, all⟩)

/-- The body of a function runs in a frame inside the one the function was made in, wherever the
call stands. -/
theorem callClosure (limits : Limits) {function : Closure} (known : L.value w (.function function))
    {arguments : List Value} (all : ∀ v ∈ arguments, L.value w v) :
    L.Upholds w L.value (callClosure limits eval function arguments) := by
  have room := L.room_of_part (known _ .self)
  obtain ⟨identity, name, parameters, ⟨token, ss⟩, captured⟩ := function
  have inside : L.room w captured (Statement.depthAll .blocks ss + 1) := by
    rwa [Nat.add_comm]
  unfold Run.callClosure
  split
  · exact upholds_fail _
  · refine Upholds.admitted ?_ limits
    apply (upholds_newFrame inside).bind
    intro w' frame more own
    apply (upholds_bindParameters frame _ fun v listed => value_mono more (all v listed)).bind
    intro w'' _ further _
    apply ((inner.statements value_null (L.room_mono further own)).nested limits).calling.bind
    intro _ v _ known
    exact upholds_pure (value_unwrapped known)

theorem call (setting : Setting) {callee : Value} (known : L.value w callee)
    {arguments : List Value} (all : ∀ v ∈ arguments, L.value w v) :
    L.Upholds w L.value (call setting eval callee arguments) := by
  cases callee with
  | function function => exact inner.callClosure setting.limits known all
  | native function => exact upholds_callNative setting function arguments
  | _ => exact upholds_fail _

theorem node (setting : Setting) {e : Expression} (room : L.room w frame (e.depth .blocks)) :
    L.Upholds w L.value (node setting eval frame e) := by
  have part {n : Nat} (fits : n ≤ e.depth .blocks) : L.room w frame n := L.room_le room fits
  cases e with
  | identifier name => exact upholds_lookup frame _
  | integer _ value => exact upholds_pure (value_number _)
  | float _ value => exact upholds_pure (value_number _)
  | boolean _ value => exact upholds_pure (value_boolean _)
  | string _ value => exact upholds_pure (value_string _)
  | null _ => exact upholds_pure value_null
  | unary _ op operand =>
    apply (inner w operand frame (part (by simp [Expression.depth]))).bind
    intro _ _ _ _
    exact upholds_ofExcept fun _ => value_unary
  | binary _ op left right =>
    apply (inner w left frame (part (by simp only [Expression.depth]; omega))).bind
    intro w' _ more _
    have second := part (n := right.depth .blocks) (by simp only [Expression.depth]; omega)
    apply (inner w' right frame (L.room_mono more second)).bind
    intro _ _ _ _
    exact upholds_ofExcept fun _ => value_binary
  | assign _ target value =>
    apply (inner w value frame (part (by simp [Expression.depth]))).bind
    intro _ _ _ known
    exact upholds_assign frame _ known
  | conditional _ condition consequence alternative =>
    apply inner.conditional
    · exact part (by simp only [Expression.depth]; omega)
    · exact part (by simp only [Expression.depth]; omega)
    · exact part (by simp only [Expression.depth]; omega)
  | function _ parameters body =>
    exact upholds_closure (part (by simp [Expression.depth])) none parameters
  | call _ callee arguments =>
    apply (inner w callee frame (part (by simp only [Expression.depth]; omega))).bind
    intro w' _ more known
    have second := part (n := Expression.depthAll .blocks arguments)
      (by simp only [Expression.depth]; omega)
    apply (inner.values (L.room_mono more second)).bind
    intro w'' _ further all
    exact inner.call setting (value_mono further known) all
  | member _ object property computed =>
    apply (inner w object frame (part (by simp only [Expression.depth]; omega))).bind
    intro w' _ more known
    cases computed with
    | true =>
      have second := part (n := property.depth .blocks) (by simp only [Expression.depth]; omega)
      apply (inner w' property frame (L.room_mono more second)).bind
      intro w'' _ further _
      apply (upholds_ofExcept (A := fun _ _ => True) fun _ _ => trivial).bind
      intro w''' _ last _
      exact upholds_ofExcept fun _ =>
        value_member (value_mono last (value_mono further known))
    | false =>
      apply (upholds_pure (A := fun _ _ => True) trivial).bind
      intro w'' _ further _
      exact upholds_ofExcept fun _ => value_member (value_mono further known)
  | object _ ps =>
    apply (inner.properties (part (by simp [Expression.depth]))).bind
    intro w' entries more all
    exact upholds_newObject fun entry listed => all entry (Table.mem_of_mem_ofList listed)

end Inner

theorem inner_expression (L : Ledger X) (setting : Setting) (bound : Nat) :
    L.Inner (expression setting bound) := by
  induction bound with
  | zero => exact fun w e frame _ s described => .error w (List.prefix_refl w) described
  | succ bound ih => exact fun w e frame room => (ih.node setting room).nested setting.limits

theorem inner_evaluate (L : Ledger X) (setting : Setting) : L.Inner (evaluate setting) :=
  fun w e frame room s => L.inner_expression setting _ w e frame room s

theorem upholds_program (L : Ledger X) (setting : Setting) {frame : FrameId} {p : Program}
    (room : L.room w frame (p.depth .blocks)) : L.Upholds w L.value (program setting frame p) := by
  apply ((L.inner_evaluate setting).statements value_null room).bind
  intro _ _ _ known
  exact upholds_pure (value_unwrapped known)

/-! ## Sessions -/

/-- In a session, there is room for the text in the global frame, should it run. -/
def Fits (L : Ledger X) (w : List X) (session : Session) (source : String) : Prop :=
  (parse session.setting.limits.nesting source).errors = [] →
    L.room w session.globals ((parse session.setting.limits.nesting source).program.depth .blocks)

theorem exists_eval {session : Session} {source : String}
    (described : L.Describes w session.machine.heap session.machine.fresh)
    (fits : L.Fits w session source) :
    ∃ w', w <+: w' ∧ L.Describes w' (session.eval source).2.machine.heap
        (session.eval source).2.machine.fresh ∧
      ∀ v, (session.eval source).1 = .ok v → L.value w' v := by
  rw [Session.eval]
  cases errors : (parse session.setting.limits.nesting source).errors with
  | nil =>
    have entered := L.upholds_program session.setting (fits errors) session.machine described
    simp only [Session.run, outcome]
    generalize program session.setting session.globals _ session.machine = r at entered
    cases entered with
    | ok w' more described known =>
      refine ⟨w', more, described, fun v same => ?_⟩
      cases same
      exact known
    | @error stop t w' more described =>
      cases stop <;> exact ⟨w', more, described, fun _ same => by cases same⟩
  -- a text with syntax errors does not run
  | cons error errors => exact ⟨w, List.prefix_refl w, described, fun _ same => by cases same⟩

theorem exists_after {session : Session} {sources : List String}
    (described : L.Describes w session.machine.heap session.machine.fresh)
    (fits : ∀ source ∈ sources, L.Fits w session source) :
    ∃ w', w <+: w' ∧ L.Describes w' (session.after sources).machine.heap
      (session.after sources).machine.fresh := by
  induction sources generalizing session w with
  | nil => exact ⟨w, List.prefix_refl w, described⟩
  | cons source rest ih =>
    obtain ⟨w', more, described, -⟩ := exists_eval described (fits source List.mem_cons_self)
    have along := Session.along_eval keeps_grows session source
    have later : ∀ text ∈ rest, L.Fits w' (session.eval source).2 text := by
      intro text listed clean
      rw [along.setting] at clean
      rw [along.setting, along.globals]
      exact L.room_mono more (fits text (List.mem_cons_of_mem _ listed) clean)
    obtain ⟨w'', further, described⟩ := ih described later
    exact ⟨w'', more.trans further, described⟩

end Ledger

end Guion
