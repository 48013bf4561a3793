import Guion.Token.Basic

/-!
# Programs

The tree that a source text stands for.  Every node keeps the token that introduced it.
-/

set_option autoImplicit false

namespace Guion

/-- A name where it occurs. -/
structure Identifier where
  token : Token
  name : String
deriving Repr, DecidableEq, Inhabited

/-- The identifier spelled by a token. -/
def Identifier.ofToken (token : Token) : Identifier := ⟨token, token.text⟩

/-- Operators before their operand. -/
inductive UnaryOp where
  | not
  | negate
deriving Repr, DecidableEq, Inhabited

/-- Operators between their operands. -/
inductive BinaryOp where
  | add
  | sub
  | mul
  | div
  | equal
  | notEqual
  | less
  | lessEqual
  | greater
  | greaterEqual
deriving Repr, DecidableEq, Inhabited

mutual

/-- Expressions. -/
inductive Expression where
  | identifier (name : Identifier)
  | integer (token : Token) (value : Int)
  | float (token : Token) (value : Float)
  | boolean (token : Token) (value : Bool)
  | string (token : Token) (value : String)
  | null (token : Token)
  | unary (token : Token) (op : UnaryOp) (operand : Expression)
  | binary (token : Token) (op : BinaryOp) (left right : Expression)
  /-- `target = value`. -/
  | assign (token : Token) (target : Identifier) (value : Expression)
  /-- `si (condition) consequence sino alternative`. -/
  | conditional (token : Token) (condition : Expression) (consequence : Block)
      (alternative : Option Block)
  | function (token : Token) (parameters : List Identifier) (body : Block)
  | call (token : Token) (callee : Expression) (arguments : List Expression)
  /-- `object.property` or, when `computed`, `object[property]`. -/
  | member (token : Token) (object property : Expression) (computed : Bool)
  | object (token : Token) (properties : List Property)

/-- `key` or `key: value` in an object. -/
inductive Property where
  | mk (key : Identifier) (value : Option Expression)

/-- Statements between braces. -/
inductive Block where
  | mk (token : Token) (statements : List Statement)

/-- Statements. -/
inductive Statement where
  /-- `var name = value;`, or `let name = value;` for a constant. -/
  | declaration (token : Token) (name : Identifier) (value : Option Expression) (constant : Bool)
  | result (token : Token) (value : Option Expression)
  | expression (token : Token) (value : Expression)
  /-- `func name(parameters) body`. -/
  | function (token : Token) (name : Identifier) (parameters : List Identifier) (body : Block)

end

instance : Inhabited Expression := ⟨.null default⟩

instance : Inhabited Block := ⟨.mk default []⟩

/-- The token that opens a block. -/
def Block.token : Block → Token
  | .mk token _ => token

/-- The statements of a block. -/
def Block.statements : Block → List Statement
  | .mk _ statements => statements

/-- The key of a property. -/
def Property.key : Property → Identifier
  | .mk key _ => key

/-- The value given for a property, if any. -/
def Property.value : Property → Option Expression
  | .mk _ value => value

/-- The token that introduced an expression. -/
def Expression.token : Expression → Token
  | .identifier name => name.token
  | .integer token _ => token
  | .float token _ => token
  | .boolean token _ => token
  | .string token _ => token
  | .null token => token
  | .unary token _ _ => token
  | .binary token _ _ _ => token
  | .assign token _ _ => token
  | .conditional token _ _ _ => token
  | .function token _ _ => token
  | .call token _ _ => token
  | .member token _ _ _ => token
  | .object token _ => token

/-- The token that introduced a statement. -/
def Statement.token : Statement → Token
  | .declaration token _ _ _ => token
  | .result token _ => token
  | .expression token _ => token
  | .function token _ _ _ => token

/-- A program is its statements in order. -/
abbrev Program : Type := List Statement

end Guion
