import Guion.Bounded
import Mathlib.Order.Defs.Unbundled

/-!
# How bounded computations end

Facts about runs of bounded computations that hold whatever the computation is about.  A run of a
sequence is a run of its first part followed by a run of the rest (`bind_eq_ok_iff`,
`bind_eq_error_iff`).  What every step of a computation keeps, the computation keeps (`Keeps`),
and a computation whose parts never run out of their bounds never runs out of its own
(`Finishes`).
-/

set_option autoImplicit false

namespace Guion.Bounded

variable {ε σ α β : Type}

/-! ## Sequences -/

section Sequences

variable {p : Bounded ε σ α} {f : α → Bounded ε σ β} {s t u : σ} {a : α} {b : β} {e : Stop ε}

theorem bind_of_ok (h : p s = .ok a u) : (p >>= f) s = f a u := by
  show EStateM.bind p f s = f a u
  simp only [EStateM.bind, h]

theorem bind_of_error (h : p s = .error e u) : (p >>= f) s = .error e u := by
  show EStateM.bind p f s = .error e u
  simp only [EStateM.bind, h]

/-- A sequence succeeds when its first part does and the rest does from there. -/
theorem bind_eq_ok_iff :
    (p >>= f) s = .ok b t ↔ ∃ a u, p s = .ok a u ∧ f a u = .ok b t := by
  cases first : p s with
  | ok a u =>
    rw [bind_of_ok first]
    constructor
    · exact fun rest => ⟨a, u, rfl, rest⟩
    · rintro ⟨_, _, same, rest⟩
      cases same
      exact rest
  | error e u =>
    rw [bind_of_error first]
    simp

/-- A sequence stops where its first part stops or where the rest does. -/
theorem bind_eq_error_iff :
    (p >>= f) s = .error e t ↔
      p s = .error e t ∨ ∃ a u, p s = .ok a u ∧ f a u = .error e t := by
  cases first : p s with
  | ok a u =>
    rw [bind_of_ok first]
    constructor
    · exact fun rest => .inr ⟨a, u, rfl, rest⟩
    · rintro (stopped | ⟨_, _, same, rest⟩)
      · cases stopped
      · cases same
        exact rest
  | error e u =>
    rw [bind_of_error first]
    simp

/-- A repetition that ends goes the same way with a larger bound. -/
theorem collect_of_le {item : Bounded ε σ (Option (List α))} {n m : Nat} (le : n ≤ m) {as : List α}
    (h : collect item n s = .ok as t) : collect item m s = .ok as t := by
  induction n generalizing m s t as with
  | zero => cases h
  | succ n ih =>
    obtain ⟨m, rfl⟩ : ∃ k, m = k + 1 := ⟨m - 1, by omega⟩
    obtain ⟨found, u, first, rest⟩ := bind_eq_ok_iff.1 h
    refine bind_eq_ok_iff.2 ⟨found, u, first, ?_⟩
    cases found with
    | none => exact rest
    | some found =>
      obtain ⟨more, v, rest, last⟩ := bind_eq_ok_iff.1 rest
      exact bind_eq_ok_iff.2 ⟨more, v, ih (Nat.le_of_succ_le_succ le) rest, last⟩

theorem map_eq_bind (g : α → β) (p : Bounded ε σ α) : g <$> p = p >>= fun a => pure (g a) := by
  funext s
  show EStateM.map g p s = EStateM.bind p (fun a => EStateM.pure (g a)) s
  simp only [EStateM.map, EStateM.bind]
  cases p s <;> rfl

end Sequences

/-! ## What a computation keeps -/

/-- The state in which a run ends, however it ends. -/
def final : EStateM.Result (Stop ε) σ α → σ
  | .ok _ t => t
  | .error _ t => t

/-- Every run of `p` ends in a state related by `R` to the one it started in. -/
class Keeps (R : σ → σ → Prop) (p : Bounded ε σ α) : Prop where
  final_rel : ∀ s, R s (final (p s))

section Keeps

variable {R : σ → σ → Prop} {p : Bounded ε σ α} {f : α → Bounded ε σ β}

theorem Keeps.ok [keeps : Keeps R p] {s t : σ} {a : α} (h : p s = .ok a t) : R s t := by
  have related := keeps.final_rel s
  rwa [h] at related

theorem Keeps.error [keeps : Keeps R p] {s t : σ} {e : Stop ε} (h : p s = .error e t) :
    R s t := by
  have related := keeps.final_rel s
  rwa [h] at related

variable [order : IsPreorder σ R]

instance keeps_pure (a : α) : Keeps R (pure a : Bounded ε σ α) := ⟨fun s => order.refl s⟩

instance keeps_get : Keeps R (get : Bounded ε σ σ) := ⟨fun s => order.refl s⟩

instance keeps_fail (cause : ε) : Keeps R (fail cause : Bounded ε σ α) :=
  ⟨fun s => order.refl s⟩

instance keeps_exhausted : Keeps R (exhausted : Bounded ε σ α) := ⟨fun s => order.refl s⟩

instance keeps_bind [first : Keeps R p] [rest : ∀ a, Keeps R (f a)] : Keeps R (p >>= f) := by
  constructor
  intro s
  cases h : p s with
  | ok a u =>
    rw [bind_of_ok h]
    exact order.trans _ _ _ (Keeps.ok h) ((rest a).final_rel u)
  | error e u =>
    rw [bind_of_error h]
    exact Keeps.error h

/-- For parts that have to be split into cases first. -/
theorem Keeps.then (_ : Keeps R p) (_ : ∀ a, Keeps R (f a)) : Keeps R (p >>= f) := keeps_bind

instance keeps_map (g : α → β) [Keeps R p] : Keeps R (g <$> p) := by
  rw [map_eq_bind]
  infer_instance

omit order in
instance keeps_ite (c : Prop) [Decidable c] {q : Bounded ε σ α} [yes : Keeps R p]
    [no : Keeps R q] : Keeps R (if c then p else q) := by
  split
  · exact yes
  · exact no

/-- What a round of a repetition goes on with. -/
theorem keeps_round (R : σ → σ → Prop) [IsPreorder σ R] (item : Bounded ε σ (Option (List α)))
    (n : Nat) [Keeps R (collect item n)] (found : Option (List α)) : Keeps R
      (match found with
        | none => pure []
        | some found => do return found ++ (← collect item n) : Bounded ε σ (List α)) := by
  cases found <;> infer_instance

/-- Repeating a computation keeps what each round keeps. -/
instance keeps_collect {item : Bounded ε σ (Option (List α))} [Keeps R item] (n : Nat) :
    Keeps R (collect item n) := by
  induction n with
  | zero => exact keeps_exhausted
  | succ n ih =>
    have rounds := keeps_round R item n
    exact keeps_bind

end Keeps

/-! ## Computations that never run out of their bound -/

/-- No run of `p` from a state in `P` exhausts its bound. -/
class Finishes (P : σ → Prop) (p : Bounded ε σ α) : Prop where
  ne_exhausted : ∀ s, P s → ∀ t, p s ≠ .error .exhausted t

/-- Going on along `R` from a state in `P` stays in `P`. -/
class Closed (R : σ → σ → Prop) (P : σ → Prop) : Prop where
  closed : ∀ s t, R s t → P s → P t

section Finishes

variable {R : σ → σ → Prop} {P : σ → Prop} {p : Bounded ε σ α} {f : α → Bounded ε σ β}

instance finishes_pure (a : α) : Finishes P (pure a : Bounded ε σ α) := by
  constructor
  intro s _ t h
  cases h

instance finishes_fail (cause : ε) : Finishes P (fail cause : Bounded ε σ α) := by
  constructor
  intro s _ t h
  cases h

instance finishes_ite (c : Prop) [Decidable c] {q : Bounded ε σ α} [yes : Finishes P p]
    [no : Finishes P q] : Finishes P (if c then p else q) := by
  split
  · exact yes
  · exact no

theorem Finishes.mono {Q : σ → Prop} (finishes : Finishes Q p) (weaker : ∀ s, P s → Q s) :
    Finishes P p :=
  ⟨fun s hs => finishes.ne_exhausted s (weaker s hs)⟩

theorem Finishes.then [Keeps R p] [closed : Closed R P] (first : Finishes P p)
    (rest : ∀ a, Finishes P (f a)) : Finishes P (p >>= f) := by
  constructor
  intro s hs t h
  rcases bind_eq_error_iff.1 h with h | ⟨a, u, h, h'⟩
  · exact first.ne_exhausted s hs t h
  · exact (rest a).ne_exhausted u (closed.closed s u (Keeps.ok h) hs) t h'

/-- Repetition ends before its bound when every round that goes on makes the state smaller. -/
theorem finishes_collect {item : Bounded ε σ (Option (List α))} (size : σ → Nat)
    (round : Finishes P item)
    (smaller : ∀ s a t, P s → item s = .ok (some a) t → P t ∧ size t < size s) (n : Nat) :
    Finishes (fun s => P s ∧ size s < n) (collect item n) := by
  induction n with
  | zero => exact ⟨fun s hs => absurd hs.2 (Nat.not_lt_zero _)⟩
  | succ n ih =>
    constructor
    intro s hs t h
    rcases bind_eq_error_iff.1 h with h | ⟨found, u, h, h'⟩
    · exact round.ne_exhausted s hs.1 t h
    · cases found with
      -- a round that stops yields at once, so only rounds that go on can run out
      | none => cases h'
      | some found =>
        obtain ⟨hu, less⟩ := smaller s found u hs.1 h
        rcases bind_eq_error_iff.1 h' with h' | ⟨more, v, _, h'⟩
        · exact ih.ne_exhausted u ⟨hu, by omega⟩ t h'
        · cases h'

end Finishes

end Guion.Bounded
