import Guion.Parser.State

/-!
# Expressions

Operator-precedence parsing.  A production stands on the first token of its construct and ends on
the last one.  Expressions, blocks and conditionals contain one another; `Productions` bundles
the three for use one level further in, so that each production below is defined without
recursion, and `Productions.upTo` ties the knot by a bound on the tokens left.
-/

set_option autoImplicit false

namespace Guion

/-- How strongly an operator binds, weakest first. -/
inductive BindingPower where
  | lowest
  | assignment
  | equality
  | comparison
  | sum
  | product
  | unary
  | call
deriving Repr, DecidableEq, Inhabited

namespace BindingPower

/-- The place of a binding power in the order. -/
def rank : BindingPower → Nat
  | .lowest => 0
  | .assignment => 1
  | .equality => 2
  | .comparison => 3
  | .sum => 4
  | .product => 5
  | .unary => 6
  | .call => 7

instance : LT BindingPower := ⟨fun a b => a.rank < b.rank⟩

instance (a b : BindingPower) : Decidable (a < b) := inferInstanceAs (Decidable (a.rank < b.rank))

/-- How strongly a token binds the expression before it. -/
def ofKind : Token.Kind → BindingPower
  | .assign => .assignment
  | .equal | .notEqual => .equality
  | .less | .lessEqual | .greater | .greaterEqual => .comparison
  | .plus | .minus => .sum
  | .star | .slash => .product
  | .leftParen | .dot | .leftBracket => .call
  | _ => .lowest

end BindingPower

/-- The operator between operands that a token stands for, if any. -/
def BinaryOp.ofKind? : Token.Kind → Option BinaryOp
  | .plus => some .add
  | .minus => some .sub
  | .star => some .mul
  | .slash => some .div
  | .equal => some .equal
  | .notEqual => some .notEqual
  | .less => some .less
  | .lessEqual => some .lessEqual
  | .greater => some .greater
  | .greaterEqual => some .greaterEqual
  | _ => none

namespace Parser

/-- The productions that contain one another. -/
structure Productions where
  /-- An expression whose operators bind more strongly than the given power. -/
  expression : BindingPower → Parser Expression
  /-- A block; the current token is its opening brace. -/
  block : Parser Block
  /-- A conditional; the current token is its `si` or `sinosi`. -/
  conditional : Token → Parser Expression

/-- An item after a comma, or nothing where there is no comma. -/
def commaItem {α : Type} (item : Parser α) : Parser (Option (List α)) := do
  if (← peek).kind = .comma then
    advance
    return some [← item]
  else return none

/-- Further items, each after a comma. -/
def commaSeparated {α : Type} (bound : Nat) (item : Parser α) : Parser (List α) :=
  Bounded.collect (commaItem item) bound

/-- The parameters of a function; the current token is the opening parenthesis. -/
def parameters (bound : Nat) : Parser (List Identifier) := do
  if (← peek).kind = .rightParen then
    advance
    return []
  else
    let first ← expectIdentifier
    let more ← commaSeparated bound expectIdentifier
    expect .rightParen
    return first :: more

/-- The parameters and the body of a function; they start at the next token. -/
def functionRest (bound : Nat) (inner : Productions) : Parser (List Identifier × Block) := do
  expect .leftParen
  let names ← parameters bound
  expect .leftCurly
  let body ← inner.block
  return (names, body)

/-- The expression that starts at the next token. -/
def nextExpression (inner : Productions) (power : BindingPower) : Parser Expression := do
  advance
  inner.expression power

/-- An operator and its operand. -/
def unary (inner : Productions) (token : Token) (op : UnaryOp) : Parser Expression := do
  let operand ← nextExpression inner .unary
  return .unary token op operand

/-- An expression in parentheses, which leave no trace in the tree. -/
def grouped (inner : Productions) : Parser Expression := do
  let e ← nextExpression inner .lowest
  expect .rightParen
  return e

/-- What follows the first branch of a conditional.  `sinosi` is a conditional nested in the
alternative, one level deeper. -/
def alternative (limit : Nat) (inner : Productions) : Parser (Option Block) := do
  match (← peek).kind with
  | .sino =>
    advance
    expect .leftCurly
    return some (← inner.block)
  | .sinosi =>
    advance
    let token ← current
    let chained ← nested limit (inner.conditional token)
    return some (.mk token [.expression token chained])
  | _ => return none

/-- A conditional; the current token is its `si` or `sinosi`. -/
def conditional (limit : Nat) (inner : Productions) (token : Token) : Parser Expression := do
  expect .leftParen
  let condition ← nextExpression inner .lowest
  expect .rightParen
  expect .leftCurly
  let consequence ← inner.block
  let otherwise ← alternative limit inner
  return .conditional token condition consequence otherwise

/-- A property of an object; its key is the next token. -/
def property (inner : Productions) : Parser Property := do
  let key ← expectIdentifier
  if (← peek).kind = .colon then
    advance
    let value ← nextExpression inner .lowest
    return .mk key (some value)
  else return .mk key none

/-- A property after a comma, or nothing where there is no comma or only the closing brace after
it. -/
def commaProperty (inner : Productions) : Parser (Option (List Property)) := do
  if (← peek).kind = .comma then
    advance
    if (← peek).kind = .rightCurly then return none
    else return some [← property inner]
  else return none

/-- Further properties, each after a comma; a last comma may stand alone. -/
def moreProperties (bound : Nat) (inner : Productions) : Parser (List Property) :=
  Bounded.collect (commaProperty inner) bound

/-- The properties of an object, before its closing brace. -/
def properties (bound : Nat) (inner : Productions) : Parser (List Property) := do
  if (← peek).kind = .rightCurly then return []
  else
    let first ← property inner
    let more ← moreProperties bound inner
    return first :: more

/-- An object; the current token is its opening brace. -/
def object (bound : Nat) (inner : Productions) (token : Token) : Parser Expression := do
  let found ← properties bound inner
  expect .rightCurly
  return .object token found

/-- The construct that the current token starts. -/
def operand (limit bound : Nat) (inner : Productions) : Parser Expression := do
  let token ← current
  match token.kind with
  | .identifier => return .identifier (.ofToken token)
  | .integer =>
    match Number.readInteger? token.text with
    | some value => return .integer token value
    | none => failHere (.badIntegerLiteral token.text)
  | .float =>
    match Number.read? token.text with
    | some value => return .float token value
    | none => failHere (.badFloatLiteral token.text)
  | .verdadero => return .boolean token true
  | .falso => return .boolean token false
  | .string => return .string token token.text
  | .bang => unary inner token .not
  | .minus => unary inner token .negate
  | .leftParen => grouped inner
  | .func =>
    let (names, body) ← functionRest bound inner
    return .function token names body
  | .si => conditional limit inner token
  | .leftCurly => object bound inner token
  | .illegal => failHere (.illegalToken token.text)
  | _ => failHere (.noOperand token.render)

/-- Arguments of a call; the current token is the opening parenthesis. -/
def arguments (bound : Nat) (inner : Productions) : Parser (List Expression) := do
  if (← peek).kind = .rightParen then
    advance
    return []
  else
    let first ← nextExpression inner .lowest
    let more ← commaSeparated bound (nextExpression inner .lowest)
    expect .rightParen
    return first :: more

/-- An assignment to `left`, which has to be a name; the current token is the equals sign. -/
def assignment (inner : Productions) (token : Token) (left : Expression) : Parser Expression := do
  match left with
  | .identifier target =>
    let value ← nextExpression inner .lowest
    return .assign token target value
  | _ => failHere .invalidAssignmentTarget

/-- The expression in which `left` is the first operand of the current token. -/
def extend (bound : Nat) (inner : Productions) (left : Expression) : Parser Expression := do
  let token ← current
  match BinaryOp.ofKind? token.kind with
  | some op =>
    let right ← nextExpression inner (.ofKind token.kind)
    return .binary token op left right
  | none =>
    match token.kind with
    | .assign => assignment inner token left
    | .leftParen =>
      let values ← arguments bound inner
      return .call token left values
    | .dot =>
      let name ← expectIdentifier
      return .member token left (.identifier name) false
    | .leftBracket =>
      let key ← nextExpression inner .lowest
      expect .rightBracket
      return .member token left key true
    | _ => return left

/-- Extends `left` by the operators that bind it more strongly than `power`.  Each one wraps it
one level deeper, and none of these levels is left here.  The last but one argument bounds the
number of operators. -/
def operators (limit bound : Nat) (inner : Productions) (power : BindingPower) :
    Nat → Expression → Parser Expression
  | 0, _ => Bounded.exhausted
  | n + 1, left => do
    if power < .ofKind (← peek).kind then
      enter limit
      advance
      let wider ← extend bound inner left
      operators limit bound inner power n wider
    else return left

/-- An expression whose operators bind more strongly than `power`. -/
def expression (limit bound : Nat) (inner : Productions) (power : BindingPower) :
    Parser Expression :=
  nested limit do
    let left ← operand limit bound inner
    keepingDepth (operators limit bound inner power bound left)

end Parser

end Guion
