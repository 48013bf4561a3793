import Guion.Program.Render
import Guion.Proofs.Token.Wording
import Mathlib.Data.Nat.Digits.Defs

/-!
# Nodes and leaves of programs

All nodes of a program in one list, each after what is inside it, so that its parts come in the
order in which they are written.  The leaves are the tokens of names and literals among them
(`Program.leaves`), and a node is well formed when it agrees with its token (`Node.Formed`).
-/

set_option autoImplicit false

namespace Guion

/-- A node of a program: a name where it occurs, or another expression or a statement with all that
is inside it. -/
inductive Node where
  | name (name : Identifier)
  | expression (e : Expression)
  | statement (s : Statement)

mutual

/-- The nodes of an expression, itself last. -/
def Expression.nodes : Expression → List Node
  | .identifier name => [.name name]
  | .integer token value => [.expression (.integer token value)]
  | .float token value => [.expression (.float token value)]
  | .boolean token value => [.expression (.boolean token value)]
  | .string token value => [.expression (.string token value)]
  | .null token => [.expression (.null token)]
  | .unary token op operand => operand.nodes ++ [.expression (.unary token op operand)]
  | .binary token op left right =>
    left.nodes ++ right.nodes ++ [.expression (.binary token op left right)]
  | .assign token target value =>
    .name target :: value.nodes ++ [.expression (.assign token target value)]
  | .conditional token condition consequence alternative =>
    condition.nodes ++ consequence.nodes ++ Block.nodesOption alternative ++
      [.expression (.conditional token condition consequence alternative)]
  | .function token parameters body =>
    parameters.map .name ++ body.nodes ++ [.expression (.function token parameters body)]
  | .call token callee arguments =>
    callee.nodes ++ Expression.nodesAll arguments ++ [.expression (.call token callee arguments)]
  | .member token object property computed =>
    object.nodes ++ property.nodes ++ [.expression (.member token object property computed)]
  | .object token properties =>
    Property.nodesAll properties ++ [.expression (.object token properties)]

/-- The nodes of all the expressions. -/
def Expression.nodesAll : List Expression → List Node
  | [] => []
  | e :: es => e.nodes ++ Expression.nodesAll es

/-- The nodes of an expression, if there is one. -/
def Expression.nodesOption : Option Expression → List Node
  | none => []
  | some e => e.nodes

/-- The nodes of a property. -/
def Property.nodes : Property → List Node
  | .mk key value => .name key :: Expression.nodesOption value

/-- The nodes of all the properties. -/
def Property.nodesAll : List Property → List Node
  | [] => []
  | p :: ps => p.nodes ++ Property.nodesAll ps

/-- The nodes of a block. -/
def Block.nodes : Block → List Node
  | .mk _ statements => Statement.nodesAll statements

/-- The nodes of a block, if there is one. -/
def Block.nodesOption : Option Block → List Node
  | none => []
  | some block => block.nodes

/-- The nodes of a statement, itself last. -/
def Statement.nodes : Statement → List Node
  | .declaration token name value constant =>
    .name name :: Expression.nodesOption value ++
      [.statement (.declaration token name value constant)]
  | .result token value => Expression.nodesOption value ++ [.statement (.result token value)]
  | .expression token value => value.nodes ++ [.statement (.expression token value)]
  | .function token name parameters body =>
    .name name :: parameters.map .name ++ body.nodes ++
      [.statement (.function token name parameters body)]

/-- The nodes of all the statements. -/
def Statement.nodesAll : List Statement → List Node
  | [] => []
  | s :: ss => s.nodes ++ Statement.nodesAll ss

end

/-- The nodes of a program. -/
def Program.nodes (program : Program) : List Node := Statement.nodesAll program

/-! ## What is made of nodes -/

/-- Parts of programs. -/
class HasNodes (α : Type) where
  /-- The nodes, each after what is inside it. -/
  nodes : α → List Node

namespace HasNodes

instance : HasNodes Identifier := ⟨fun name => [.name name]⟩

instance : HasNodes Expression := ⟨Expression.nodes⟩

instance : HasNodes Property := ⟨Property.nodes⟩

instance : HasNodes Block := ⟨Block.nodes⟩

instance : HasNodes Statement := ⟨Statement.nodes⟩

instance {α : Type} [HasNodes α] : HasNodes (List α) := ⟨List.flatMap nodes⟩

instance {α : Type} [HasNodes α] : HasNodes (Option α) := ⟨fun found => found.elim [] nodes⟩

instance {α β : Type} [HasNodes α] [HasNodes β] : HasNodes (α × β) :=
  ⟨fun both => nodes both.1 ++ nodes both.2⟩

section Lists

variable {α : Type} [HasNodes α]

@[simp] theorem nodes_nil : nodes ([] : List α) = [] := rfl

@[simp] theorem nodes_cons (a : α) (as : List α) : nodes (a :: as) = nodes a ++ nodes as :=
  List.flatMap_cons

@[simp] theorem nodes_singleton (a : α) : nodes [a] = nodes a := by
  rw [nodes_cons, nodes_nil, List.append_nil]

@[simp] theorem nodes_append (as bs : List α) : nodes (as ++ bs) = nodes as ++ nodes bs :=
  List.flatMap_append

@[simp] theorem nodes_none : nodes (none : Option α) = [] := rfl

@[simp] theorem nodes_some (a : α) : nodes (some a) = nodes a := rfl

@[simp] theorem nodes_toList (found : Option α) : nodes found.toList = nodes found := by
  cases found <;> simp

end Lists

theorem nodes_names (names : List Identifier) : nodes names = names.map .name := by
  induction names with
  | nil => rfl
  | cons name names ih => rw [nodes_cons, ih, List.map_cons]; rfl

theorem nodesAll_expressions (es : List Expression) : Expression.nodesAll es = nodes es := by
  induction es with
  | nil => rfl
  | cons e es ih => rw [nodes_cons, Expression.nodesAll, ih]; rfl

theorem nodesAll_properties (ps : List Property) : Property.nodesAll ps = nodes ps := by
  induction ps with
  | nil => rfl
  | cons p ps ih => rw [nodes_cons, Property.nodesAll, ih]; rfl

theorem nodesAll_statements (ss : List Statement) : Statement.nodesAll ss = nodes ss := by
  induction ss with
  | nil => rfl
  | cons s ss ih => rw [nodes_cons, Statement.nodesAll, ih]; rfl

end HasNodes

/-! ## Leaves -/

/-- The kinds of names and of literals. -/
def Token.Kind.isLeaf : Token.Kind → Bool
  | .identifier | .integer | .float | .string | .verdadero | .falso => true
  | _ => false

theorem Token.Kind.ne_endOfInput_of_isLeaf {kind : Token.Kind} (h : kind.isLeaf = true) :
    kind ≠ .endOfInput := by
  rintro rfl
  cases h

/-- The token is a name or a literal. -/
def Token.isLeaf (t : Token) : Bool := t.kind.isLeaf

/-- The token of a name or of a literal. -/
def Node.leaf? : Node → Option Token
  | .name i => some i.token
  | .expression (.integer token _) | .expression (.float token _) | .expression (.boolean token _)
  | .expression (.string token _) | .expression (.null token) => some token
  | _ => none

/-- The tokens of the names and literals of a program, in the order in which they are written. -/
def Program.leaves (program : Program) : List Token := program.nodes.filterMap Node.leaf?

/-! ## Agreement with tokens -/

/-- The number that a run of digits stands for, the last digit counting ones. -/
def Number.decimal (text : String) : Nat :=
  Nat.ofDigits 10 (text.toList.reverse.map fun c => c.toNat - '0'.toNat)

theorem Number.ofDigits_toList (text : String) : ofDigits text.toList = decimal text := by
  rw [decimal, Nat.ofDigits_eq_foldr, List.foldr_map, List.foldr_reverse, ofDigits]
  simp only [Nat.cast_id, Nat.add_comm]

open Munch

/-- A name is spelled by its token: letters, and no reserved word. -/
def Identifier.Formed (i : Identifier) : Prop :=
  i.name = i.token.text ∧ Run Letter i.token.text.toList ∧
    ∀ kind, (i.token.text, kind) ∉ Token.keywords

/-- The expression agrees with its token, whatever is inside it. -/
def Expression.Formed : Expression → Prop
  | .integer token value =>
    Run Digit token.text.toList ∧ value = Number.decimal token.text ∧
      0 ≤ value ∧ value < Nat.pow 2 63
  | .boolean token value => value = true ↔ token.kind = .verdadero
  | .string token value => value = token.text ∧ '"' ∉ value.toList
  | .null _ => False
  | .unary token op _ => op.render = token.text
  | .binary token op _ _ => op.render = token.text
  | .member _ _ property false =>
    ∃ name, property = .identifier name ∧ property.token.text = name.name
  | _ => True

/-- The statement agrees with its token, whatever is inside it: a constant is what `let` declares,
and has a value. -/
def Statement.Formed : Statement → Prop
  | .declaration token _ value constant =>
    (constant = true ↔ token.kind = .constant) ∧ (constant = true ↔ token.text = "let") ∧
      (constant = true → value.isSome)
  | _ => True

/-- The node agrees with its token. -/
def Node.Formed : Node → Prop
  | .name i => i.Formed
  | .expression e => e.Formed
  | .statement s => s.Formed

end Guion
