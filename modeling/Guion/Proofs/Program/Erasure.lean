import Guion.Program.Basic

/-!
# Programs up to tokens

Two programs are the same up to tokens when they are equal once every token kept in their nodes is
erased.  Names, values, operators and the shape of the tree stay.
-/

set_option autoImplicit false

namespace Guion

/-- The name alone. -/
@[simp] def Identifier.erase (i : Identifier) : Identifier := ⟨default, i.name⟩

mutual

/-- The expression without its tokens. -/
@[simp] def Expression.erase : Expression → Expression
  | .identifier name => .identifier name.erase
  | .integer _ value => .integer default value
  | .float _ value => .float default value
  | .boolean _ value => .boolean default value
  | .string _ value => .string default value
  | .null _ => .null default
  | .unary _ op operand => .unary default op operand.erase
  | .binary _ op left right => .binary default op left.erase right.erase
  | .assign _ target value => .assign default target.erase value.erase
  | .conditional _ condition consequence alternative =>
    .conditional default condition.erase consequence.erase (Block.eraseOption alternative)
  | .function _ parameters body => .function default (parameters.map Identifier.erase) body.erase
  | .call _ callee arguments => .call default callee.erase (Expression.eraseAll arguments)
  | .member _ object property computed =>
    .member default object.erase property.erase computed
  | .object _ properties => .object default (Property.eraseAll properties)

/-- Each expression without its tokens. -/
@[simp] def Expression.eraseAll : List Expression → List Expression
  | [] => []
  | e :: es => e.erase :: Expression.eraseAll es

/-- The expression, if any, without its tokens. -/
@[simp] def Expression.eraseOption : Option Expression → Option Expression
  | none => none
  | some e => some e.erase

/-- The property without its tokens. -/
@[simp] def Property.erase : Property → Property
  | .mk key value => .mk key.erase (Expression.eraseOption value)

/-- Each property without its tokens. -/
@[simp] def Property.eraseAll : List Property → List Property
  | [] => []
  | p :: ps => p.erase :: Property.eraseAll ps

/-- The block without its tokens. -/
@[simp] def Block.erase : Block → Block
  | .mk _ statements => .mk default (Statement.eraseAll statements)

/-- The block, if any, without its tokens. -/
@[simp] def Block.eraseOption : Option Block → Option Block
  | none => none
  | some block => some block.erase

/-- The statement without its tokens. -/
@[simp] def Statement.erase : Statement → Statement
  | .declaration _ name value constant =>
    .declaration default name.erase (Expression.eraseOption value) constant
  | .result _ value => .result default (Expression.eraseOption value)
  | .expression _ value => .expression default value.erase
  | .function _ name parameters body =>
    .function default name.erase (parameters.map Identifier.erase) body.erase

/-- Each statement without its tokens. -/
@[simp] def Statement.eraseAll : List Statement → List Statement
  | [] => []
  | s :: ss => s.erase :: Statement.eraseAll ss

end

/-- The program without its tokens. -/
@[simp] def Program.erase (program : Program) : Program := Statement.eraseAll program

end Guion
