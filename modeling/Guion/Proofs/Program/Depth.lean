import Guion.Program.Basic

/-!
# How deep programs are

Nodes of a program are given weights by what they are, and the depth of a program is the largest
weight of a path from its root to a leaf.  With a weight of one for every node it counts the nodes
on the path (`Weights.nodes`); other weights count expressions, declared functions or blocks only.

On a path, blocks follow expressions and declared functions, and statements follow blocks, so the
number of nodes is bounded by the number of expressions and of declared functions
(`Program.nodes_le`).
-/

set_option autoImplicit false

namespace Guion

/-- What the nodes of a program weigh. -/
structure Weights where
  expression : Nat
  block : Nat
  /-- A statement other than the declaration of a function. -/
  statement : Nat
  /-- The declaration of a function. -/
  function : Nat

namespace Weights

/-- Every expression, block and statement counts. -/
def nodes : Weights := ⟨1, 1, 1, 1⟩

/-- Only expressions count. -/
def expressions : Weights := ⟨1, 0, 0, 0⟩

/-- Only declared functions count. -/
def functions : Weights := ⟨0, 0, 0, 1⟩

/-- Only blocks count: bodies of functions and branches of conditionals, the alternative that a
`sinosi` stands for included. -/
def blocks : Weights := ⟨0, 1, 0, 0⟩

end Weights

mutual

/-- The largest weight of a path through the expression. -/
def Expression.depth (w : Weights) : Expression → Nat
  | .unary _ _ operand => w.expression + operand.depth w
  | .binary _ _ left right => w.expression + max (left.depth w) (right.depth w)
  | .assign _ _ value => w.expression + value.depth w
  | .conditional _ condition consequence alternative =>
    w.expression +
      max (condition.depth w) (max (consequence.depth w) (Block.depthOption w alternative))
  | .function _ _ body => w.expression + body.depth w
  | .call _ callee arguments =>
    w.expression + max (callee.depth w) (Expression.depthAll w arguments)
  | .member _ object property _ => w.expression + max (object.depth w) (property.depth w)
  | .object _ properties => w.expression + Property.depthAll w properties
  | _ => w.expression

/-- The largest weight of a path through one of the expressions. -/
def Expression.depthAll (w : Weights) : List Expression → Nat
  | [] => 0
  | e :: es => max (e.depth w) (Expression.depthAll w es)

/-- The largest weight of a path through the expression, if there is one. -/
def Expression.depthOption (w : Weights) : Option Expression → Nat
  | none => 0
  | some e => e.depth w

/-- The largest weight of a path through one of the properties, which weigh nothing. -/
def Property.depthAll (w : Weights) : List Property → Nat
  | [] => 0
  | .mk _ value :: ps => max (Expression.depthOption w value) (Property.depthAll w ps)

/-- The largest weight of a path through the block. -/
def Block.depth (w : Weights) : Block → Nat
  | .mk _ statements => w.block + Statement.depthAll w statements

/-- The largest weight of a path through the block, if there is one. -/
def Block.depthOption (w : Weights) : Option Block → Nat
  | none => 0
  | some body => body.depth w

/-- The largest weight of a path through the statement. -/
def Statement.depth (w : Weights) : Statement → Nat
  | .declaration _ _ value _ => w.statement + Expression.depthOption w value
  | .result _ value => w.statement + Expression.depthOption w value
  | .expression _ e => w.statement + e.depth w
  | .function _ _ _ body => w.function + body.depth w

/-- The largest weight of a path through one of the statements. -/
def Statement.depthAll (w : Weights) : List Statement → Nat
  | [] => 0
  | s :: ss => max (s.depth w) (Statement.depthAll w ss)

end

/-- The largest weight of a path through the program. -/
def Program.depth (w : Weights) (p : Program) : Nat := Statement.depthAll w p

section Lists

variable {w : Weights} {k : Nat}

theorem Expression.depthAll_le {es : List Expression} (h : ∀ e ∈ es, e.depth w ≤ k) :
    Expression.depthAll w es ≤ k := by
  induction es with
  | nil => exact Nat.zero_le _
  | cons e es ih =>
    obtain ⟨first, others⟩ := List.forall_mem_cons.1 h
    exact Nat.max_le.2 ⟨first, ih others⟩

theorem Property.depthAll_le {ps : List Property}
    (h : ∀ p ∈ ps, Expression.depthOption w p.value ≤ k) : Property.depthAll w ps ≤ k := by
  induction ps with
  | nil => exact Nat.zero_le _
  | cons p ps ih =>
    obtain ⟨first, others⟩ := List.forall_mem_cons.1 h
    obtain ⟨key, value⟩ := p
    exact Nat.max_le.2 ⟨first, ih others⟩

theorem Block.depthOption_le {body : Option Block} (h : ∀ b ∈ body, b.depth w ≤ k) :
    Block.depthOption w body ≤ k := by
  cases body with
  | none => exact Nat.zero_le _
  | some b => exact h b rfl

theorem Statement.depthAll_le {ss : List Statement} (h : ∀ s ∈ ss, s.depth w ≤ k) :
    Statement.depthAll w ss ≤ k := by
  induction ss with
  | nil => exact Nat.zero_le _
  | cons s ss ih =>
    obtain ⟨first, others⟩ := List.forall_mem_cons.1 h
    exact Nat.max_le.2 ⟨first, ih others⟩

end Lists

/-! ## Nodes, expressions and functions -/

section Nodes

open Weights

/-- An expression is itself on each path through it. -/
theorem Expression.depth_expressions_pos (e : Expression) : 0 < e.depth expressions := by
  cases e <;> simp only [Expression.depth, expressions] <;> omega

mutual

/-- An expression may be followed by a block and a statement before the next one. -/
theorem Expression.nodes_le : (e : Expression) →
    e.depth nodes ≤ 3 * e.depth expressions + 2 * e.depth functions
  | .identifier _ | .integer _ _ | .float _ _ | .boolean _ _ | .string _ _ | .null _ => by
    simp [Expression.depth, nodes, expressions, functions]
  | .unary _ _ operand => by
    have := operand.nodes_le
    simp only [Expression.depth, nodes, expressions, functions] at this ⊢
    omega
  | .binary _ _ left right => by
    have := left.nodes_le
    have := right.nodes_le
    simp only [Expression.depth, nodes, expressions, functions] at *
    omega
  | .assign _ _ value => by
    have := value.nodes_le
    simp only [Expression.depth, nodes, expressions, functions] at this ⊢
    omega
  | .conditional _ condition consequence alternative => by
    have := condition.nodes_le
    have := consequence.nodes_le
    have := Block.nodes_le_option alternative
    simp only [Expression.depth, nodes, expressions, functions] at *
    omega
  | .function _ _ body => by
    have := body.nodes_le
    simp only [Expression.depth, nodes, expressions, functions] at this ⊢
    omega
  | .call _ callee arguments => by
    have := callee.nodes_le
    have := Expression.nodes_le_all arguments
    simp only [Expression.depth, nodes, expressions, functions] at *
    omega
  | .member _ object property _ => by
    have := object.nodes_le
    have := property.nodes_le
    simp only [Expression.depth, nodes, expressions, functions] at *
    omega
  | .object _ properties => by
    have := Property.nodes_le_all properties
    simp only [Expression.depth, nodes, expressions, functions] at this ⊢
    omega

theorem Expression.nodes_le_all : (es : List Expression) → Expression.depthAll nodes es ≤
    3 * Expression.depthAll expressions es + 2 * Expression.depthAll functions es
  | [] => Nat.zero_le _
  | e :: es => by
    have := e.nodes_le
    have := Expression.nodes_le_all es
    simp only [Expression.depthAll]
    omega

theorem Expression.nodes_le_option : (value : Option Expression) →
    Expression.depthOption nodes value ≤
      3 * Expression.depthOption expressions value + 2 * Expression.depthOption functions value
  | none => Nat.zero_le _
  | some e => e.nodes_le

theorem Property.nodes_le_all : (ps : List Property) → Property.depthAll nodes ps ≤
    3 * Property.depthAll expressions ps + 2 * Property.depthAll functions ps
  | [] => Nat.zero_le _
  | .mk _ value :: ps => by
    have := Expression.nodes_le_option value
    have := Property.nodes_le_all ps
    simp only [Property.depthAll]
    omega

/-- The block itself and a statement in it may come before the first expression. -/
theorem Block.nodes_le : (body : Block) →
    body.depth nodes ≤ 3 * body.depth expressions + 2 * body.depth functions + 2
  | .mk _ statements => by
    have := Statement.nodes_le_all statements
    simp only [Block.depth, nodes, expressions, functions] at this ⊢
    omega

theorem Block.nodes_le_option : (body : Option Block) → Block.depthOption nodes body ≤
    3 * Block.depthOption expressions body + 2 * Block.depthOption functions body + 2
  | none => Nat.zero_le _
  | some body => body.nodes_le

/-- A declared function pays for itself and for its block. -/
theorem Statement.nodes_le : (s : Statement) →
    s.depth nodes ≤ 3 * s.depth expressions + 2 * s.depth functions + 1
  | .declaration _ _ value _ => by
    have := Expression.nodes_le_option value
    simp only [Statement.depth, nodes, expressions, functions] at this ⊢
    omega
  | .result _ value => by
    have := Expression.nodes_le_option value
    simp only [Statement.depth, nodes, expressions, functions] at this ⊢
    omega
  | .expression _ e => by
    have := e.nodes_le
    simp only [Statement.depth, nodes, expressions, functions] at this ⊢
    omega
  | .function _ _ _ body => by
    have := body.nodes_le
    simp only [Statement.depth, nodes, expressions, functions] at this ⊢
    omega

theorem Statement.nodes_le_all : (ss : List Statement) → Statement.depthAll nodes ss ≤
    3 * Statement.depthAll expressions ss + 2 * Statement.depthAll functions ss + 1
  | [] => Nat.zero_le _
  | s :: ss => by
    have := s.nodes_le
    have := Statement.nodes_le_all ss
    simp only [Statement.depthAll]
    omega

end

/-- The nodes on a path are bounded by the expressions and the declared functions on one. -/
theorem Program.nodes_le (p : Program) :
    p.depth nodes ≤ 3 * p.depth expressions + 2 * p.depth functions + 1 :=
  Statement.nodes_le_all p

end Nodes

end Guion
