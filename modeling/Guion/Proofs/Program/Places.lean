import Guion.Parser.Error
import Guion.Proofs.Program.Erasure

/-!
# Programs at other places

Where the tokens of a program stand in the source text is part of it.  `move` puts every token of a
program, of a part of it or of an error at another place, and changes nothing else.  Without its
tokens the program is the same (`Program.erase_move`).
-/

set_option autoImplicit false

namespace Guion

/-- The token at another place. -/
def Token.move (g : Position → Position) (t : Token) : Token := { t with pos := g t.pos }

/-- The name at another place. -/
def Identifier.move (g : Position → Position) (i : Identifier) : Identifier :=
  ⟨i.token.move g, i.name⟩

mutual

/-- The expression at another place. -/
def Expression.move (g : Position → Position) : Expression → Expression
  | .identifier name => .identifier (name.move g)
  | .integer token value => .integer (token.move g) value
  | .float token value => .float (token.move g) value
  | .boolean token value => .boolean (token.move g) value
  | .string token value => .string (token.move g) value
  | .null token => .null (token.move g)
  | .unary token op operand => .unary (token.move g) op (operand.move g)
  | .binary token op left right => .binary (token.move g) op (left.move g) (right.move g)
  | .assign token target value => .assign (token.move g) (target.move g) (value.move g)
  | .conditional token condition consequence alternative =>
    .conditional (token.move g) (condition.move g) (consequence.move g)
      (Block.moveOption g alternative)
  | .function token parameters body =>
    .function (token.move g) (parameters.map (Identifier.move g)) (body.move g)
  | .call token callee arguments =>
    .call (token.move g) (callee.move g) (Expression.moveAll g arguments)
  | .member token object property computed =>
    .member (token.move g) (object.move g) (property.move g) computed
  | .object token properties => .object (token.move g) (Property.moveAll g properties)

/-- Each expression at another place. -/
def Expression.moveAll (g : Position → Position) : List Expression → List Expression
  | [] => []
  | e :: es => e.move g :: Expression.moveAll g es

/-- The expression, if any, at another place. -/
def Expression.moveOption (g : Position → Position) : Option Expression → Option Expression
  | none => none
  | some e => some (e.move g)

/-- The property at another place. -/
def Property.move (g : Position → Position) : Property → Property
  | .mk key value => .mk (key.move g) (Expression.moveOption g value)

/-- Each property at another place. -/
def Property.moveAll (g : Position → Position) : List Property → List Property
  | [] => []
  | p :: ps => p.move g :: Property.moveAll g ps

/-- The block at another place. -/
def Block.move (g : Position → Position) : Block → Block
  | .mk token statements => .mk (token.move g) (Statement.moveAll g statements)

/-- The block, if any, at another place. -/
def Block.moveOption (g : Position → Position) : Option Block → Option Block
  | none => none
  | some block => some (block.move g)

/-- The statement at another place. -/
def Statement.move (g : Position → Position) : Statement → Statement
  | .declaration token name value constant =>
    .declaration (token.move g) (name.move g) (Expression.moveOption g value) constant
  | .result token value => .result (token.move g) (Expression.moveOption g value)
  | .expression token value => .expression (token.move g) (value.move g)
  | .function token name parameters body =>
    .function (token.move g) (name.move g) (parameters.map (Identifier.move g)) (body.move g)

/-- Each statement at another place. -/
def Statement.moveAll (g : Position → Position) : List Statement → List Statement
  | [] => []
  | s :: ss => s.move g :: Statement.moveAll g ss

end

/-- The program at another place. -/
def Program.move (g : Position → Position) (program : Program) : Program :=
  Statement.moveAll g program

/-- The error at another place. -/
def SyntaxError.move (g : Position → Position) (e : SyntaxError) : SyntaxError :=
  { e with pos := g e.pos }

/-- What stands at places in a source text. -/
class Movable (α : Type) where
  /-- The same at other places. -/
  move : (Position → Position) → α → α

section Instances

instance : Movable Unit := ⟨fun _ => id⟩

instance : Movable Token := ⟨Token.move⟩

instance : Movable Identifier := ⟨Identifier.move⟩

instance : Movable Expression := ⟨Expression.move⟩

instance : Movable Property := ⟨Property.move⟩

instance : Movable Block := ⟨Block.move⟩

instance : Movable Statement := ⟨Statement.move⟩

instance {α : Type} [Movable α] : Movable (List α) := ⟨fun g => List.map (Movable.move g)⟩

instance {α : Type} [Movable α] : Movable (Option α) := ⟨fun g => Option.map (Movable.move g)⟩

instance {α β : Type} [Movable α] [Movable β] : Movable (α × β) :=
  ⟨fun g => Prod.map (Movable.move g) (Movable.move g)⟩

end Instances

section Lists

variable (g : Position → Position)

theorem Expression.moveAll_eq (es : List Expression) :
    Expression.moveAll g es = Movable.move g es := by
  induction es with
  | nil => rfl
  | cons e es ih => exact congrArg (_ :: ·) ih

theorem Property.moveAll_eq (ps : List Property) : Property.moveAll g ps = Movable.move g ps := by
  induction ps with
  | nil => rfl
  | cons p ps ih => exact congrArg (_ :: ·) ih

theorem Statement.moveAll_eq (ss : List Statement) :
    Statement.moveAll g ss = Movable.move g ss := by
  induction ss with
  | nil => rfl
  | cons s ss ih => exact congrArg (_ :: ·) ih

theorem Expression.moveOption_eq (value : Option Expression) :
    Expression.moveOption g value = Movable.move g value := by
  cases value <;> rfl

theorem Block.moveOption_eq (body : Option Block) :
    Block.moveOption g body = Movable.move g body := by
  cases body <;> rfl

end Lists

/-! ## Moving twice, and not at all -/

/-- Moving to the same places changes nothing, and moving twice is moving once. -/
class LawfulMovable (α : Type) [Movable α] : Prop where
  move_id : ∀ a : α, Movable.move id a = a
  move_move : ∀ (g h : Position → Position) (a : α),
    Movable.move h (Movable.move g a) = Movable.move (h ∘ g) a

theorem Token.move_move (g h : Position → Position) (t : Token) :
    (t.move g).move h = t.move (h ∘ g) := rfl

theorem Identifier.move_move (g h : Position → Position) (i : Identifier) :
    (i.move g).move h = i.move (h ∘ g) := rfl

section Twice

variable (g h : Position → Position)

theorem Identifier.map_move_move (names : List Identifier) :
    (names.map (Identifier.move g)).map (Identifier.move h) =
      names.map (Identifier.move (h ∘ g)) :=
  List.map_map

mutual

theorem Expression.move_move : ∀ e : Expression, (e.move g).move h = e.move (h ∘ g)
  | .identifier _ | .integer _ _ | .float _ _ | .boolean _ _ | .string _ _ | .null _ => rfl
  | .unary _ _ a | .assign _ _ a => by
    simp only [Expression.move, Expression.move_move a, Token.move_move, Identifier.move_move]
  | .binary _ _ a b | .member _ a b _ => by
    simp only [Expression.move, Expression.move_move a, Expression.move_move b, Token.move_move]
  | .conditional _ c b other => by
    simp only [Expression.move, Expression.move_move c, Block.move_move b,
      Block.moveOption_moveOption other, Token.move_move]
  | .function _ names body => by
    simp only [Expression.move, Block.move_move body, Identifier.map_move_move, Token.move_move]
  | .call _ callee arguments => by
    simp only [Expression.move, Expression.move_move callee,
      Expression.moveAll_moveAll arguments, Token.move_move]
  | .object _ properties => by
    simp only [Expression.move, Property.moveAll_moveAll properties, Token.move_move]

theorem Expression.moveAll_moveAll : ∀ es : List Expression,
    Expression.moveAll h (Expression.moveAll g es) = Expression.moveAll (h ∘ g) es
  | [] => rfl
  | e :: es => by
    simp only [Expression.moveAll, Expression.move_move e, Expression.moveAll_moveAll es]

theorem Expression.moveOption_moveOption : ∀ value : Option Expression,
    Expression.moveOption h (Expression.moveOption g value) = Expression.moveOption (h ∘ g) value
  | none => rfl
  | some e => by simp only [Expression.moveOption, Expression.move_move e]

theorem Property.move_move : ∀ p : Property, (p.move g).move h = p.move (h ∘ g)
  | .mk _ value => by
    simp only [Property.move, Expression.moveOption_moveOption value, Identifier.move_move]

theorem Property.moveAll_moveAll : ∀ ps : List Property,
    Property.moveAll h (Property.moveAll g ps) = Property.moveAll (h ∘ g) ps
  | [] => rfl
  | p :: ps => by simp only [Property.moveAll, Property.move_move p, Property.moveAll_moveAll ps]

theorem Block.move_move : ∀ b : Block, (b.move g).move h = b.move (h ∘ g)
  | .mk _ ss => by simp only [Block.move, Statement.moveAll_moveAll ss, Token.move_move]

theorem Block.moveOption_moveOption : ∀ body : Option Block,
    Block.moveOption h (Block.moveOption g body) = Block.moveOption (h ∘ g) body
  | none => rfl
  | some b => by simp only [Block.moveOption, Block.move_move b]

theorem Statement.move_move : ∀ s : Statement, (s.move g).move h = s.move (h ∘ g)
  | .declaration _ _ value _ | .result _ value => by
    simp only [Statement.move, Expression.moveOption_moveOption value, Token.move_move,
      Identifier.move_move]
  | .expression _ value => by
    simp only [Statement.move, Expression.move_move value, Token.move_move]
  | .function _ _ names body => by
    simp only [Statement.move, Block.move_move body, Identifier.map_move_move, Token.move_move,
      Identifier.move_move]

theorem Statement.moveAll_moveAll : ∀ ss : List Statement,
    Statement.moveAll h (Statement.moveAll g ss) = Statement.moveAll (h ∘ g) ss
  | [] => rfl
  | s :: ss => by
    simp only [Statement.moveAll, Statement.move_move s, Statement.moveAll_moveAll ss]

end

end Twice

theorem Identifier.map_move_id (names : List Identifier) :
    names.map (Identifier.move id) = names :=
  List.map_id names

mutual

theorem Expression.move_id : ∀ e : Expression, e.move id = e
  | .identifier _ | .integer _ _ | .float _ _ | .boolean _ _ | .string _ _ | .null _ => rfl
  | .unary _ _ a | .assign _ _ a => by
    rw [Expression.move, Expression.move_id a]
    rfl
  | .binary _ _ a b | .member _ a b _ => by
    rw [Expression.move, Expression.move_id a, Expression.move_id b]
    rfl
  | .conditional _ c b other => by
    rw [Expression.move, Expression.move_id c, Block.move_id b, Block.moveOption_id other]
    rfl
  | .function _ names body => by
    rw [Expression.move, Block.move_id body, Identifier.map_move_id]
    rfl
  | .call _ callee arguments => by
    rw [Expression.move, Expression.move_id callee, Expression.moveAll_id arguments]
    rfl
  | .object _ properties => by
    rw [Expression.move, Property.moveAll_id properties]
    rfl

theorem Expression.moveAll_id : ∀ es : List Expression, Expression.moveAll id es = es
  | [] => rfl
  | e :: es => by rw [Expression.moveAll, Expression.move_id e, Expression.moveAll_id es]

theorem Expression.moveOption_id : ∀ value : Option Expression,
    Expression.moveOption id value = value
  | none => rfl
  | some e => by rw [Expression.moveOption, Expression.move_id e]

theorem Property.move_id : ∀ p : Property, p.move id = p
  | .mk _ value => by
    rw [Property.move, Expression.moveOption_id value]
    rfl

theorem Property.moveAll_id : ∀ ps : List Property, Property.moveAll id ps = ps
  | [] => rfl
  | p :: ps => by rw [Property.moveAll, Property.move_id p, Property.moveAll_id ps]

theorem Block.move_id : ∀ b : Block, b.move id = b
  | .mk _ ss => by
    rw [Block.move, Statement.moveAll_id ss]
    rfl

theorem Block.moveOption_id : ∀ body : Option Block, Block.moveOption id body = body
  | none => rfl
  | some b => by rw [Block.moveOption, Block.move_id b]

theorem Statement.move_id : ∀ s : Statement, s.move id = s
  | .declaration _ _ value _ | .result _ value => by
    rw [Statement.move, Expression.moveOption_id value]
    rfl
  | .expression _ value => by
    rw [Statement.move, Expression.move_id value]
    rfl
  | .function _ _ names body => by
    rw [Statement.move, Block.move_id body, Identifier.map_move_id]
    rfl

theorem Statement.moveAll_id : ∀ ss : List Statement, Statement.moveAll id ss = ss
  | [] => rfl
  | s :: ss => by rw [Statement.moveAll, Statement.move_id s, Statement.moveAll_id ss]

end

instance {α : Type} [Movable α] [LawfulMovable α] : LawfulMovable (List α) where
  move_id as := (List.map_congr_left fun a _ => LawfulMovable.move_id a).trans (List.map_id as)
  move_move g h _ :=
    List.map_map.trans (List.map_congr_left fun a _ => LawfulMovable.move_move g h a)

instance {α β : Type} [Movable α] [Movable β] [LawfulMovable α] [LawfulMovable β] :
    LawfulMovable (α × β) where
  move_id pair := Prod.ext (LawfulMovable.move_id pair.1) (LawfulMovable.move_id pair.2)
  move_move g h pair :=
    Prod.ext (LawfulMovable.move_move g h pair.1) (LawfulMovable.move_move g h pair.2)

theorem Program.move_id (p : Program) : p.move id = p := Statement.moveAll_id p

theorem Program.move_move (g h : Position → Position) (p : Program) :
    (p.move g).move h = p.move (h ∘ g) :=
  Statement.moveAll_moveAll g h p

/-! ## Without tokens -/

section Erased

variable (g : Position → Position)

theorem Identifier.map_erase_move (names : List Identifier) :
    (names.map (Identifier.move g)).map Identifier.erase = names.map Identifier.erase :=
  List.map_map

mutual

/-- Without its tokens, an expression is the same wherever it stands. -/
theorem Expression.erase_move : ∀ e : Expression, (e.move g).erase = e.erase
  | .identifier _ | .integer _ _ | .float _ _ | .boolean _ _ | .string _ _ | .null _ => rfl
  | .unary _ _ a | .assign _ _ a => by
    simp only [Expression.move, Expression.erase, Expression.erase_move a, Identifier.erase,
      Identifier.move]
  | .binary _ _ a b | .member _ a b _ => by
    simp only [Expression.move, Expression.erase, Expression.erase_move a, Expression.erase_move b]
  | .conditional _ c b other => by
    simp only [Expression.move, Expression.erase, Expression.erase_move c, Block.erase_move b,
      Block.eraseOption_moveOption other]
  | .function _ names body => by
    simp only [Expression.move, Expression.erase, Block.erase_move body, Identifier.map_erase_move]
  | .call _ callee arguments => by
    simp only [Expression.move, Expression.erase, Expression.erase_move callee,
      Expression.eraseAll_moveAll arguments]
  | .object _ properties => by
    simp only [Expression.move, Expression.erase, Property.eraseAll_moveAll properties]

theorem Expression.eraseAll_moveAll : ∀ es : List Expression,
    Expression.eraseAll (Expression.moveAll g es) = Expression.eraseAll es
  | [] => rfl
  | e :: es => by
    simp only [Expression.moveAll, Expression.eraseAll, Expression.erase_move e,
      Expression.eraseAll_moveAll es]

theorem Expression.eraseOption_moveOption : ∀ value : Option Expression,
    Expression.eraseOption (Expression.moveOption g value) = Expression.eraseOption value
  | none => rfl
  | some e => by
    simp only [Expression.moveOption, Expression.eraseOption, Expression.erase_move e]

theorem Property.erase_move : ∀ p : Property, (p.move g).erase = p.erase
  | .mk _ value => by
    simp only [Property.move, Property.erase, Expression.eraseOption_moveOption value,
      Identifier.erase, Identifier.move]

theorem Property.eraseAll_moveAll : ∀ ps : List Property,
    Property.eraseAll (Property.moveAll g ps) = Property.eraseAll ps
  | [] => rfl
  | p :: ps => by
    simp only [Property.moveAll, Property.eraseAll, Property.erase_move p,
      Property.eraseAll_moveAll ps]

theorem Block.erase_move : ∀ b : Block, (b.move g).erase = b.erase
  | .mk _ ss => by simp only [Block.move, Block.erase, Statement.eraseAll_moveAll ss]

theorem Block.eraseOption_moveOption : ∀ body : Option Block,
    Block.eraseOption (Block.moveOption g body) = Block.eraseOption body
  | none => rfl
  | some b => by simp only [Block.moveOption, Block.eraseOption, Block.erase_move b]

theorem Statement.erase_move : ∀ s : Statement, (s.move g).erase = s.erase
  | .declaration _ _ value _ | .result _ value => by
    simp only [Statement.move, Statement.erase, Expression.eraseOption_moveOption value,
      Identifier.erase, Identifier.move]
  | .expression _ value => by
    simp only [Statement.move, Statement.erase, Expression.erase_move value]
  | .function _ _ names body => by
    simp only [Statement.move, Statement.erase, Block.erase_move body, Identifier.map_erase_move,
      Identifier.erase, Identifier.move]

theorem Statement.eraseAll_moveAll : ∀ ss : List Statement,
    Statement.eraseAll (Statement.moveAll g ss) = Statement.eraseAll ss
  | [] => rfl
  | s :: ss => by
    simp only [Statement.moveAll, Statement.eraseAll, Statement.erase_move s,
      Statement.eraseAll_moveAll ss]

end

theorem Program.erase_move (p : Program) : (p.move g).erase = p.erase :=
  Statement.eraseAll_moveAll g p

end Erased

end Guion
