import Guion.Parser.Expression
import Guion.Proofs.Grammar.Shape

/-!
# Binding powers and levels

Operator-precedence parsing compares ranks of binding powers; the grammar stratifies expressions by
levels.  `At` indexes the strata by rank, so that a comparison of ranks is an inclusion of strata
(`At.mono`), and an expression whose operators bind more strongly than a power is one of the stratum
`BindingPower.inside`.
-/

set_option autoImplicit false

namespace Guion

/-- The stratum of expressions whose operators bind more strongly than the power.  Operators before
an operand are read with the operand, whatever the power. -/
def BindingPower.inside (power : BindingPower) : Nat := min (power.rank + 1) BindingPower.unary.rank

theorem BindingPower.rank_le_call (power : BindingPower) : power.rank ≤ BindingPower.call.rank := by
  cases power <;> decide

namespace Grammar

variable {follow : List Token → Prop} {ts rest : List Token} {e : Expression}

/-- How strongly the operators of a level bind. -/
def Level.power : Level → BindingPower
  | .equality => .equality
  | .relational => .comparison
  | .additive => .sum
  | .multiplicative => .product
  | .unary => .unary

/-- The expressions whose operators outside brackets have at least the given rank. -/
def At (follow : List Token → Prop) : Nat → List Token → Expression → List Token → Prop
  | 0 | 1 => Expr follow
  | 2 => Chain follow .equality
  | 3 => Chain follow .relational
  | 4 => Chain follow .additive
  | 5 => Chain follow .multiplicative
  | 6 => Chain follow .unary
  | _ + 7 => Applied follow

theorem at_power (level : Level) : At follow level.power.rank = Chain follow level := by
  cases level <;> rfl

theorem at_inside_power (level : Level) :
    At follow level.power.inside = Chain follow level.tighter := by
  cases level <;> rfl

theorem At.of_succ : ∀ {n : Nat}, At follow (n + 1) ts e rest → At follow n ts e rest
  -- ranks 0 and 1 are whole expressions, and above the tightest operators nothing changes
  | 0, h => h
  | 1, h => .operators h
  | 2, h => .tighter nofun h
  | 3, h => .tighter nofun h
  | 4, h => .tighter nofun h
  | 5, h => .tighter nofun h
  | 6, h => .applied h
  | _ + 7, h => h

/-- A stratum contains every tighter one. -/
theorem At.mono {m n : Nat} (le : m ≤ n) (h : At follow n ts e rest) : At follow m ts e rest := by
  induction le with
  | refl => exact h
  | step _ ih => exact ih h.of_succ

theorem Level.rank_le_tighter (level : Level) : level.power.rank ≤ level.tighter.power.rank := by
  cases level <;> decide

theorem Level.ofKind_of_operator? {level : Level} {kind : Token.Kind} {op : BinaryOp}
    (h : level.operator? kind = some op) : BindingPower.ofKind kind = level.power := by
  cases level <;> cases kind <;> first | rfl | cases h

theorem Level.ofKind?_of_operator? {level : Level} {kind : Token.Kind} {op : BinaryOp}
    (h : level.operator? kind = some op) : BinaryOp.ofKind? kind = some op := by
  cases level <;> cases kind <;> first | exact h | cases h

/-- Every operator between operands is one of some level. -/
theorem Level.exists_operator? {kind : Token.Kind} {op : BinaryOp}
    (h : BinaryOp.ofKind? kind = some op) : ∃ level : Level, level.operator? kind = some op := by
  cases kind
  case equal => exact ⟨.equality, h⟩
  case notEqual => exact ⟨.equality, h⟩
  case less => exact ⟨.relational, h⟩
  case lessEqual => exact ⟨.relational, h⟩
  case greater => exact ⟨.relational, h⟩
  case greaterEqual => exact ⟨.relational, h⟩
  case plus => exact ⟨.additive, h⟩
  case minus => exact ⟨.additive, h⟩
  case star => exact ⟨.multiplicative, h⟩
  case slash => exact ⟨.multiplicative, h⟩
  all_goals cases h

end Grammar

end Guion
