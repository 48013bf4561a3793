import Guion.Program.Basic

/-!
# Disciplined programs

A `regresa` inside a conditional ends the enclosing call only if nothing else is made of the value
of the conditional.  A program is disciplined if every conditional with a `regresa` in it, outside
the functions made there, is a statement by itself (`Statement.disciplined`); a conditional without
one may stand wherever an expression may.
-/

set_option autoImplicit false

namespace Guion

mutual

/-- A `regresa` occurs in the expression, outside the bodies of functions. -/
def Expression.returns : Expression → Bool
  | .unary _ _ operand => operand.returns
  | .binary _ _ left right => left.returns || right.returns
  | .assign _ _ value => value.returns
  | .conditional _ condition consequence alternative =>
    condition.returns || consequence.returns || Block.returnsOption alternative
  | .call _ callee arguments => callee.returns || Expression.returnsAny arguments
  | .member _ object property _ => object.returns || property.returns
  | .object _ properties => Property.returnsAny properties
  | _ => false

/-- A `regresa` occurs in one of the expressions. -/
def Expression.returnsAny : List Expression → Bool
  | [] => false
  | e :: es => e.returns || Expression.returnsAny es

/-- A `regresa` occurs in the expression, if there is one. -/
def Expression.returnsOption : Option Expression → Bool
  | none => false
  | some e => e.returns

/-- A `regresa` occurs in one of the properties. -/
def Property.returnsAny : List Property → Bool
  | [] => false
  | .mk _ value :: ps => Expression.returnsOption value || Property.returnsAny ps

/-- A `regresa` occurs in the block. -/
def Block.returns : Block → Bool
  | .mk _ statements => Statement.returnsAny statements

/-- A `regresa` occurs in the block, if there is one. -/
def Block.returnsOption : Option Block → Bool
  | none => false
  | some body => body.returns

/-- The statement is a `regresa` or one occurs in it, outside the bodies of functions. -/
def Statement.returns : Statement → Bool
  | .declaration _ _ value _ => Expression.returnsOption value
  | .result _ _ => true
  | .expression _ e => e.returns
  | .function _ _ _ _ => false

/-- A `regresa` occurs in one of the statements. -/
def Statement.returnsAny : List Statement → Bool
  | [] => false
  | s :: ss => s.returns || Statement.returnsAny ss

end

mutual

/-- The expression is disciplined where it is not a statement by itself: it is no conditional with a
`regresa`, and all inside it is disciplined. -/
def Expression.disciplined : Expression → Bool
  | .unary _ _ operand => operand.disciplined
  | .binary _ _ left right => left.disciplined && right.disciplined
  | .assign _ _ value => value.disciplined
  | .conditional token condition consequence alternative =>
    !(Expression.conditional token condition consequence alternative).returns &&
      (condition.disciplined && consequence.disciplined && Block.disciplinedOption alternative)
  | .function _ _ body => body.disciplined
  | .call _ callee arguments => callee.disciplined && Expression.disciplinedAll arguments
  | .member _ object property _ => object.disciplined && property.disciplined
  | .object _ properties => Property.disciplinedAll properties
  | _ => true

/-- Each expression is disciplined. -/
def Expression.disciplinedAll : List Expression → Bool
  | [] => true
  | e :: es => e.disciplined && Expression.disciplinedAll es

/-- The expression, if there is one, is disciplined. -/
def Expression.disciplinedOption : Option Expression → Bool
  | none => true
  | some e => e.disciplined

/-- Each property is disciplined. -/
def Property.disciplinedAll : List Property → Bool
  | [] => true
  | .mk _ value :: ps => Expression.disciplinedOption value && Property.disciplinedAll ps

/-- The statements of the block are disciplined. -/
def Block.disciplined : Block → Bool
  | .mk _ statements => Statement.disciplinedAll statements

/-- The block, if there is one, is disciplined. -/
def Block.disciplinedOption : Option Block → Bool
  | none => true
  | some body => body.disciplined

/-- The statement is disciplined.  A conditional that is a statement by itself may return. -/
def Statement.disciplined : Statement → Bool
  | .declaration _ _ value _ => Expression.disciplinedOption value
  | .result _ value => Expression.disciplinedOption value
  | .expression _ (.conditional _ condition consequence alternative) =>
    condition.disciplined && consequence.disciplined && Block.disciplinedOption alternative
  | .expression _ e => e.disciplined
  | .function _ _ _ body => body.disciplined

/-- Each statement is disciplined. -/
def Statement.disciplinedAll : List Statement → Bool
  | [] => true
  | s :: ss => s.disciplined && Statement.disciplinedAll ss

end

/-- The program is disciplined. -/
def Program.disciplined (p : Program) : Bool := Statement.disciplinedAll p

/-- The expression is a conditional. -/
def Expression.isConditional : Expression → Bool
  | .conditional _ _ _ _ => true
  | _ => false

end Guion
