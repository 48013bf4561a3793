import Guion.Proofs.Evaluation.Ledger
import Mathlib.Data.List.Basic

/-!
# Equality of values

An object equals itself whatever it holds, and so does a function; other values are compared by what
they are.  That is a partial equivalence all the same, as long as an identity is that of one object
or function only (`Coherent`): equality is symmetric and transitive, and a value that holds no
number that is not one equals itself and is equal to what it is like.

The values that come up in a session are coherent, since every object and every function is made
with an identity of its own (`coherent_yields`).  Both are in `equality_laws`.
-/

set_option autoImplicit false

namespace Guion

/-! ## Equality of numbers -/

section Numbers

open Float.Model

/-- An unpacked number equals itself unless it is not one. -/
theorem unpacked_beq_self : (a : UnpackedFloat) → a.isNaN = false → a.beq a
  | .infinity .negative, _ | .infinity .positive, _ | .zero _, _ => rfl
  | .finite .negative m e _, _ => by
    show (some ((compare e e).then (compare m m)).swap == some .eq) = true
    rw [Std.compare_self, Std.compare_self]
    rfl
  | .finite .positive m e _, _ => by
    show (some ((compare e e).then (compare m m)) == some .eq) = true
    rw [Std.compare_self, Std.compare_self]
    rfl

/-- Finite numbers of one sign are equal if they have one mantissa and one exponent. -/
theorem eq_of_then_eq {m n : Nat} {e f : Int} (h : (compare e f).then (compare m n) = .eq) :
    e = f ∧ m = n := by
  obtain ⟨exponents, mantissas⟩ := Ordering.then_eq_eq.1 h
  exact ⟨Std.compare_eq_iff_eq.1 exponents, Std.compare_eq_iff_eq.1 mantissas⟩

/-- Unpacked numbers that are equal are the same, or zeros of whatever sign. -/
theorem like_of_unpacked_beq : (a b : UnpackedFloat) → a.beq b →
    a = b ∧ a.isNaN = false ∨ ∃ s t, a = .zero s ∧ b = .zero t
  | .infinity .negative, .infinity .negative, _ => .inl ⟨rfl, rfl⟩
  | .infinity .positive, .infinity .positive, _ => .inl ⟨rfl, rfl⟩
  | .zero s, .zero t, _ => .inr ⟨s, t, rfl, rfl⟩
  | .finite .negative m e _, .finite .negative n f _, same => by
    have equal : (compare e f).then (compare m n) = .eq :=
      Ordering.swap_eq_eq.1 (Option.some.inj (beq_iff_eq.1 same))
    obtain ⟨rfl, rfl⟩ := eq_of_then_eq equal
    exact .inl ⟨rfl, rfl⟩
  | .finite .positive m e _, .finite .positive n f _, same => by
    obtain ⟨rfl, rfl⟩ := eq_of_then_eq (Option.some.inj (beq_iff_eq.1 same))
    exact .inl ⟨rfl, rfl⟩

/-- Equality of numbers is symmetric and transitive. -/
instance partialEquivBEq_float : PartialEquivBEq Float where
  symm {x y} same := by
    show y.toModel.unpack.beq x.toModel.unpack = true
    obtain ⟨like, proper⟩ | ⟨s, t, zero, zero'⟩ := like_of_unpacked_beq _ _ same
    · rw [← like]
      exact unpacked_beq_self _ proper
    · rw [zero, zero']
      rfl
  trans {x y z} first second := by
    show x.toModel.unpack.beq z.toModel.unpack = true
    obtain ⟨like, -⟩ | ⟨s, t, zero, zero'⟩ := like_of_unpacked_beq _ _ first
    · rw [like]
      exact second
    · obtain ⟨like, -⟩ | ⟨_, u, -, zero''⟩ := like_of_unpacked_beq _ _ second
      · rw [zero, ← like, zero']
        rfl
      · rw [zero, zero'']
        rfl

theorem float_beq_self {x : Float} (proper : x.isNaN = false) : x == x :=
  unpacked_beq_self x.toModel.unpack proper

end Numbers

namespace Value

/-! ## Comparison by structure -/

mutual

/-- In the value, there is a number that is not one. -/
def hasNaN : Value → Bool
  | .number x => x.isNaN
  | .object _ properties => hasNaNAny properties
  | .returned v => v.hasNaN
  | _ => false

/-- In one of the properties, there is a number that is not one. -/
def hasNaNAny : List (String × Value) → Bool
  | [] => false
  | (_, v) :: rest => v.hasNaN || hasNaNAny rest

end

mutual

/-- Comparison by structure: objects are alike if they have the same keys with values that are
alike, whichever objects they are. -/
def alike : Value → Value → Bool
  | .object _ ps, .object _ qs => alikeAll ps qs
  | .returned a, .returned b => a.alike b
  | a, b => a.equals b

/-- The same keys with values that are alike. -/
def alikeAll : List (String × Value) → List (String × Value) → Bool
  | [], [] => true
  | (k, v) :: ps, (l, w) :: qs => k == l && v.alike w && alikeAll ps qs
  | _, _ => false

end

/-! ## Identities -/

/-- Where an identity comes up in both, it is that of one object or of one function. -/
def Agree (u v : Value) : Prop :=
  ∀ a b : Value, a.Occurs u → b.Occurs v → ∀ i, a.identity? = some i → b.identity? = some i → a = b

namespace Agree

variable {i j : Identity} {ps qs : List (String × Value)}

theorem same (agree : (object i ps).Agree (object i qs)) : ps = qs := by
  have one := agree _ _ .self .self i rfl rfl
  cases one
  rfl

theorem properties (agree : (object i ps).Agree (object j qs)) {p q : String × Value} (hp : p ∈ ps)
    (hq : q ∈ qs) : p.2.Agree q.2 :=
  fun a b ha hb => agree a b (.object hp ha) (.object hq hb)

theorem signalled {u v : Value} (agree : u.returned.Agree v.returned) : u.Agree v :=
  fun a b ha hb => agree a b (.returned ha) (.returned hb)

end Agree

/-! ## The laws -/

theorem equals_object {i j : Identity} {ps qs : List (String × Value)} :
    (object i ps).equals (object j qs) = true ↔ i = j ∨ equalsAll ps qs = true := by
  rw [equals, Bool.or_eq_true, beq_iff_eq]

theorem equalsAll_cons {p q : String × Value} {ps qs : List (String × Value)} :
    equalsAll (p :: ps) (q :: qs) = true ↔
      p.1 = q.1 ∧ p.2.equals q.2 = true ∧ equalsAll ps qs = true := by
  rw [equalsAll, Bool.and_eq_true, Bool.and_eq_true, beq_iff_eq, and_assoc]

mutual

theorem equals_comm : (a b : Value) → a.equals b = b.equals a
  | .object i ps, b => by
    cases b with
    | object j qs => simp only [equals, equalsAll_comm ps qs, BEq.comm (a := i)]
    | _ => rfl
  | .returned a, b => by
    cases b with
    | returned b => exact equals_comm a b
    | _ => rfl
  | .null, b => by cases b <;> rfl
  | .boolean _, b | .number _, b | .string _, b | .function _, b | .native _, b | .error _, b => by
    cases b <;> first | rfl | exact BEq.comm

theorem equalsAll_comm : (ps qs : List (String × Value)) → equalsAll ps qs = equalsAll qs ps
  | [], [] | [], _ :: _ | _ :: _, [] => rfl
  | (k, v) :: ps, (l, w) :: qs => by
    simp only [equalsAll, equals_comm v w, equalsAll_comm ps qs, BEq.comm (a := k)]

end

mutual

theorem equals_trans : (a b c : Value) → a.Agree b → b.Agree c → a.equals b = true →
    b.equals c = true → a.equals c = true
  | .object i ps, .object j qs, .object k rs, ab, bc, first, second => by
    rw [equals_object] at first second ⊢
    -- where two of them are one object, the third is compared with the properties of both
    rcases first with rfl | first
    · cases ab.same
      exact second
    · rcases second with rfl | second
      · cases bc.same
        exact .inr first
      · exact .inr (equalsAll_trans ps qs rs (fun p hp q hq => ab.properties hp hq)
          (fun q hq r hr => bc.properties hq hr) first second)
  | .returned a, .returned b, .returned c, ab, bc, first, second =>
    equals_trans a b c ab.signalled bc.signalled first second
  | .null, .null, .null, _, _, _, _ => rfl
  | .boolean _, .boolean _, .boolean _, _, _, first, second
  | .number _, .number _, .number _, _, _, first, second
  | .string _, .string _, .string _, _, _, first, second
  | .function _, .function _, .function _, _, _, first, second
  | .native _, .native _, .native _, _, _, first, second
  | .error _, .error _, .error _, _, _, first, second => BEq.trans first second

theorem equalsAll_trans : (ps qs rs : List (String × Value)) →
    (∀ p ∈ ps, ∀ q ∈ qs, p.2.Agree q.2) → (∀ q ∈ qs, ∀ r ∈ rs, q.2.Agree r.2) →
    equalsAll ps qs = true → equalsAll qs rs = true → equalsAll ps rs = true
  | [], [], [], _, _, _, _ => rfl
  | p :: ps, q :: qs, r :: rs, ab, bc, first, second => by
    rw [equalsAll_cons] at first second ⊢
    refine ⟨first.1.trans second.1, equals_trans p.2 q.2 r.2 ?_ ?_ first.2.1 second.2.1, ?_⟩
    · exact ab p List.mem_cons_self q List.mem_cons_self
    · exact bc q List.mem_cons_self r List.mem_cons_self
    · exact equalsAll_trans ps qs rs
        (fun p hp q hq => ab p (List.mem_cons_of_mem _ hp) q (List.mem_cons_of_mem _ hq))
        (fun q hq r hr => bc q (List.mem_cons_of_mem _ hq) r (List.mem_cons_of_mem _ hr))
        first.2.2 second.2.2

end

mutual

/-- By structure, a value is like itself. -/
theorem alike_self : (v : Value) → v.hasNaN = false → v.alike v = true
  | .object _ ps, proper => alikeAll_self ps proper
  | .returned v, proper => alike_self v proper
  | .number x, proper => by
    rw [hasNaN] at proper
    exact float_beq_self proper
  | .null, _ => rfl
  | .boolean _, _ | .string _, _ | .function _, _ | .native _, _ | .error _, _ => BEq.rfl

theorem alikeAll_self : (ps : List (String × Value)) → hasNaNAny ps = false → alikeAll ps ps = true
  | [], _ => rfl
  | (k, v) :: ps, proper => by
    rw [hasNaNAny, Bool.or_eq_false_iff] at proper
    rw [alikeAll, alike_self v proper.1, alikeAll_self ps proper.2, BEq.rfl]
    rfl

end

mutual

/-- An object is like itself, so nothing is lost by not comparing it. -/
theorem equals_eq_alike : (a b : Value) → a.Agree b → a.hasNaN = false → a.equals b = a.alike b
  | .object i ps, .object j qs, agree, proper => by
    rw [equals, alike]
    by_cases one : i = j
    · cases one
      cases agree.same
      rw [alikeAll_self ps proper, BEq.rfl, Bool.true_or]
    · rw [beq_false_of_ne one, Bool.false_or]
      exact equalsAll_eq_alikeAll ps qs (fun p hp q hq => agree.properties hp hq) proper
  | .returned a, .returned b, agree, proper => equals_eq_alike a b agree.signalled proper
  | .object _ _, .null, _, _ | .object _ _, .boolean _, _, _ | .object _ _, .number _, _, _
  | .object _ _, .string _, _, _ | .object _ _, .function _, _, _ | .object _ _, .native _, _, _
  | .object _ _, .returned _, _, _ | .object _ _, .error _, _, _ => rfl
  | .returned _, .null, _, _ | .returned _, .boolean _, _, _ | .returned _, .number _, _, _
  | .returned _, .string _, _, _ | .returned _, .function _, _, _ | .returned _, .native _, _, _
  | .returned _, .object _ _, _, _ | .returned _, .error _, _, _ => rfl
  | .null, _, _, _ | .boolean _, _, _, _ | .number _, _, _, _ | .string _, _, _, _
  | .function _, _, _, _ | .native _, _, _, _ | .error _, _, _, _ => rfl

theorem equalsAll_eq_alikeAll : (ps qs : List (String × Value)) →
    (∀ p ∈ ps, ∀ q ∈ qs, p.2.Agree q.2) → hasNaNAny ps = false → equalsAll ps qs = alikeAll ps qs
  | [], [], _, _ | [], _ :: _, _, _ | _ :: _, [], _, _ => rfl
  | (k, v) :: ps, (l, w) :: qs, agree, proper => by
    rw [hasNaNAny, Bool.or_eq_false_iff] at proper
    rw [equalsAll, alikeAll,
      equals_eq_alike v w (agree _ List.mem_cons_self _ List.mem_cons_self) proper.1,
      equalsAll_eq_alikeAll ps qs
        (fun p hp q hq => agree p (List.mem_cons_of_mem _ hp) q (List.mem_cons_of_mem _ hq))
        proper.2]

end

end Value

/-- Among the values, an identity is that of one object or of one function. -/
def Coherent (V : Value → Prop) : Prop := ∀ u v, V u → V v → u.Agree v

/-- Equality is a partial equivalence on the values, in which only numbers that are not one differ
from themselves, and of the others it is comparison by structure. -/
structure EqualityLaws (V : Value → Prop) : Prop where
  symm : ∀ a b, V a → V b → a.equals b = b.equals a
  trans : ∀ a b c, V a → V b → V c → a.equals b = true → b.equals c = true → a.equals c = true
  refl : ∀ a, V a → a.hasNaN = false → a.equals a = true
  structural : ∀ a b, V a → V b → a.hasNaN = false → b.hasNaN = false → a.equals b = a.alike b

theorem Coherent.equalityLaws {V : Value → Prop} (coherent : Coherent V) : EqualityLaws V where
  symm a b _ _ := a.equals_comm b
  trans a b c ha hb hc := a.equals_trans b c (coherent a b ha hb) (coherent b c hb hc)
  refl a ha proper := by
    rw [a.equals_eq_alike a (coherent a a ha ha) proper]
    exact a.alike_self proper
  structural a b ha hb proper _ := a.equals_eq_alike b (coherent a b ha hb) proper

/-! ## Sessions -/

/-- The value is bound in the session before one of the texts or after them all, or it is the value
of one of them. -/
inductive Session.Yields : Session → List String → Value → Prop
  | bound {session : Session} {sources : List String} {i : FrameId} {name : String}
      {binding : Binding} : session.machine.heap.binding? i name = some binding →
      Yields session sources binding.value
  | result {session : Session} {source : String} {rest : List String} {v : Value} :
      (session.eval source).1 = .ok v → Yields session (source :: rest) v
  | later {session : Session} {source : String} {rest : List String} {v : Value} :
      Yields (session.eval source).2 rest v → Yields session (source :: rest) v

namespace Ledger

/-- The ledger of the objects and functions themselves, each at its identity. -/
def made : Ledger Value where
  base w _ n := w.length = n
  part w v := ∀ i, v.identity? = some i → w[i]? = some v
  room _ _ _ := True
  part_mono more entered i identified := getElem?_of_prefix more (entered i identified)
  room_mono _ _ := trivial
  room_le _ _ := trivial
  part_of_none none i identified := by
    rw [none] at identified
    cases identified
  room_of_part _ := trivial
  base_bind size _ _ _ := size
  enterFrame size _ := ⟨_, List.prefix_refl _, size, trivial⟩
  enterFunction := by
    rintro w h _ i body rfl - name parameters
    refine ⟨w ++ [.function ⟨w.length, name, parameters, body, i⟩], List.prefix_append _ _,
      List.length_append, fun j identified => ?_⟩
    cases identified
    exact List.getElem?_concat_length
  enterObject := by
    rintro w h _ rfl properties
    refine ⟨w ++ [.object w.length properties], List.prefix_append _ _, List.length_append,
      fun j identified => ?_⟩
    cases identified
    exact List.getElem?_concat_length

theorem agree_of_made {w : List Value} {u v : Value} (hu : made.value w u) (hv : made.value w v) :
    u.Agree v := by
  intro a b ha hb i ia ib
  have entry := hu a ha i ia
  rw [hv b hb i ib] at entry
  exact (Option.some.inj entry).symm

theorem exists_yields {w : List Value} {session : Session} (sources : List String)
    (described : made.Describes w session.machine.heap session.machine.fresh) :
    ∃ w', w <+: w' ∧ ∀ v, session.Yields sources v → made.value w' v := by
  induction sources generalizing session w with
  | nil =>
    refine ⟨w, List.prefix_refl w, fun v yields => ?_⟩
    cases yields with
    | bound found => exact described.bound found
  | cons source rest ih =>
    have fits : made.Fits w session source := fun _ => trivial
    obtain ⟨w', more, later, known⟩ := exists_eval described fits
    obtain ⟨w'', further, all⟩ := ih later
    refine ⟨w'', more.trans further, fun v yields => ?_⟩
    cases yields with
    | bound found => exact value_mono (more.trans further) (described.bound found)
    | result same => exact value_mono further (known v same)
    | later yields => exact all v yields

end Ledger

theorem coherent_yields (setting : Setting) (capacity : Option Nat) (sources : List String) :
    Coherent ((Session.start setting capacity).Yields sources) := by
  have described : Ledger.made.Describes [] (Session.start setting capacity).machine.heap
      (Session.start setting capacity).machine.fresh := by
    refine ⟨rfl, fun {i name binding} found => ?_⟩
    exact Session.forall_binding?_start (P := fun _ => Ledger.made.value [])
      (Ledger.value_boolean _) (Ledger.value_boolean _) Ledger.value_null (Ledger.value_native _)
      (Ledger.value_native _) setting capacity i name binding found
  obtain ⟨w, -, known⟩ := Ledger.exists_yields sources described
  exact fun u v hu hv => Ledger.agree_of_made (known u hu) (known v hv)

/-- **Equality of values.**  The values that come up in a session are coherent, and on coherent
values equality is a partial equivalence that fails of a value and itself only where a number in it
is not one, and that otherwise compares by structure. -/
theorem equality_laws (setting : Setting) (capacity : Option Nat) (sources : List String) :
    Coherent ((Session.start setting capacity).Yields sources) ∧ ∀ V, Coherent V → EqualityLaws V :=
  ⟨coherent_yields setting capacity sources, fun _ => Coherent.equalityLaws⟩

/-- An object with one property. -/
def Value.small (i : Identity) : Value := .object i [("x", .boolean true)]

/-- An object that holds two small ones. -/
def Value.pair (i first second : Identity) : Value :=
  .object i [("a", small first), ("b", small second)]

/-- An object that holds another twice, compared with one that has a copy in the second place. -/
theorem equality_laws_copied :
    Coherent (fun v => v = .pair 2 0 0 ∨ v = .pair 3 0 1) ∧
      (Value.pair 2 0 0).equals (.pair 3 0 1) = (Value.pair 2 0 0).alike (.pair 3 0 1) := by
  let w : List Value := [.small 0, .small 1, .pair 2 0 0, .pair 3 0 1]
  have small {i : Identity} (entry : w[i]? = some (.small i)) : Ledger.made.value w (.small i) := by
    refine Ledger.value_object ?_ fun _ listed => ?_
    · rintro _ ⟨⟩
      exact entry
    · cases List.mem_singleton.1 listed
      exact Ledger.value_boolean true
  have pair {i j k : Identity} (entry : w[i]? = some (.pair i j k))
      (first : w[j]? = some (.small j)) (second : w[k]? = some (.small k)) :
      Ledger.made.value w (.pair i j k) := by
    refine Ledger.value_object ?_ fun _ listed => ?_
    · rintro _ ⟨⟩
      exact entry
    · rcases List.mem_pair.1 listed with rfl | rfl
      · exact small first
      · exact small second
  have known : ∀ v, v = .pair 2 0 0 ∨ v = .pair 3 0 1 → Ledger.made.value w v := by
    rintro v (rfl | rfl)
    · exact pair rfl rfl rfl
    · exact pair rfl rfl rfl
  have coherent : Coherent (fun v => v = .pair 2 0 0 ∨ v = .pair 3 0 1) :=
    fun u v hu hv => Ledger.agree_of_made (known u hu) (known v hv)
  have laws := (equality_laws ⟨{}, fun _ => 0⟩ none []).2 _ coherent
  exact ⟨coherent, laws.structural _ _ (.inl rfl) (.inr rfl) rfl rfl⟩

end Guion
