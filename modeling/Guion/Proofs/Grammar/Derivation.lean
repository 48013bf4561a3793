import Guion.Number.Reading
import Guion.Program.Basic

/-!
# The grammar

Which programs a list of tokens stands for, said without reference to how they are found.  Each
relation below holds of a list of tokens, the tree that its front stands for, and the tokens after
that front.  Expressions are stratified: chains of operators of one level are made of operands of
the next tighter level, down to prefixed operators, applications and primaries.

Semicolons are optional, so where an expression ends a statement the next token may go on with it
just as well: `a (b)` is a call, or two statements.  The relations take the condition `follow` on
the tokens after such an expression.  Without a condition the grammar is ambiguous; under
`Unextended` an expression goes on as long as it can.
-/

set_option autoImplicit false

namespace Guion.Grammar

/-- The levels of operators, weakest first. -/
inductive Level where
  | equality
  | relational
  | additive
  | multiplicative
  | unary
deriving Repr, DecidableEq

/-- The level of the operands of operators between two of them. -/
def Level.tighter : Level → Level
  | .equality => .relational
  | .relational => .additive
  | .additive => .multiplicative
  | .multiplicative => .unary
  | .unary => .unary

/-- The operators between operands at each level. -/
def Level.operator? : Level → Token.Kind → Option BinaryOp
  | .equality, .equal => some .equal
  | .equality, .notEqual => some .notEqual
  | .relational, .less => some .less
  | .relational, .lessEqual => some .lessEqual
  | .relational, .greater => some .greater
  | .relational, .greaterEqual => some .greaterEqual
  | .additive, .plus => some .add
  | .additive, .minus => some .sub
  | .multiplicative, .star => some .mul
  | .multiplicative, .slash => some .div
  | _, _ => none

/-- The operators before an operand. -/
def unaryOperator? : Token.Kind → Option UnaryOp
  | .bang => some .not
  | .minus => some .negate
  | _ => none

/-- Items with commas between them, at least one. -/
inductive Separated {α : Type} (item : List Token → α → List Token → Prop) :
    List Token → List α → List Token → Prop
  | one {ts : List Token} {a : α} {rest : List Token} :
      item ts a rest → Separated item ts [a] rest
  | more {ts us : List Token} {comma : Token} {a : α} {as : List α} {rest : List Token} :
      item ts a (comma :: us) → comma.kind = .comma → Separated item us as rest →
      Separated item ts (a :: as) rest

/-- A name. -/
inductive Name : List Token → Identifier → List Token → Prop
  | mk {t : Token} {rest : List Token} : t.kind = .identifier → Name (t :: rest) (.ofToken t) rest

/-- `( names )`. -/
inductive Parameters : List Token → List Identifier → List Token → Prop
  | none {left right : Token} {rest : List Token} :
      left.kind = .leftParen → right.kind = .rightParen → Parameters (left :: right :: rest) [] rest
  | some {left right : Token} {ts : List Token} {names : List Identifier} {rest : List Token} :
      left.kind = .leftParen → Separated Name ts names (right :: rest) →
      right.kind = .rightParen → Parameters (left :: ts) names rest

/-- What a value can be assigned to: a name, possibly in parentheses. -/
inductive Target : List Token → Identifier → List Token → Prop
  | name {t : Token} {rest : List Token} :
      t.kind = .identifier → Target (t :: rest) (.ofToken t) rest
  | grouped {left right : Token} {ts : List Token} {name : Identifier} {rest : List Token} :
      left.kind = .leftParen → Target ts name (right :: rest) → right.kind = .rightParen →
      Target (left :: ts) name rest

/-- Expressions that are one token other than a name.  Integers are below `2 ^ 63`, and a literal
with a point stands for the double nearest to its decimal. -/
inductive Literal (t : Token) : Expression → Prop
  | integer :
      t.kind = .integer → Number.ofDigits t.text.toList < Nat.pow 2 63 →
      Literal t (.integer t (Number.ofDigits t.text.toList))
  | float {whole fraction : List Char} :
      t.kind = .float → t.text.toList = whole ++ '.' :: fraction →
      whole.all Number.isDigit → fraction.all Number.isDigit →
      Literal t (.float t (Number.nearest (Number.ofDigits (whole ++ fraction)) (-fraction.length)))
  | verdadero : t.kind = .verdadero → Literal t (.boolean t true)
  | falso : t.kind = .falso → Literal t (.boolean t false)
  | string : t.kind = .string → Literal t (.string t t.text)

/-- The end of a statement: a semicolon, or nothing where the tokens after it satisfy `follow`. -/
inductive Ended (follow : List Token → Prop) : List Token → List Token → Prop
  | semicolon {t : Token} {rest : List Token} : t.kind = .semicolon → Ended follow (t :: rest) rest
  | nothing {rest : List Token} : follow rest → Ended follow rest rest

/-- Any tokens may follow. -/
def Anything (_ : List Token) : Prop := True

/-- The next token is a semicolon, a closing brace or the end of input. -/
def AtEnd (rest : List Token) : Prop :=
  ∀ t ∈ rest.head?, t.kind = .semicolon ∨ t.kind = .rightCurly

/-- The next token does not extend an expression: of the tokens that start a statement, only an
opening parenthesis and a minus sign do. -/
def Unextended (rest : List Token) : Prop :=
  ∀ t ∈ rest.head?, t.kind ≠ .leftParen ∧ t.kind ≠ .minus

mutual

/-- An expression. -/
inductive Expr (follow : List Token → Prop) : List Token → Expression → List Token → Prop
  | operators {ts : List Token} {e : Expression} {rest : List Token} :
      Chain follow .equality ts e rest → Expr follow ts e rest
  | assign {t : Token} {ts us : List Token} {name : Identifier} {v : Expression}
      {rest : List Token} :
      Target ts name (t :: us) → t.kind = .assign → Expr follow us v rest →
      Expr follow ts (.assign t name v) rest

/-- Operators of a level or a tighter one.  Those between operands group to the left, those before
an operand to the right. -/
inductive Chain (follow : List Token → Prop) :
    Level → List Token → Expression → List Token → Prop
  | binary {level : Level} {t : Token} {ts us : List Token} {op : BinaryOp} {a b : Expression}
      {rest : List Token} :
      Chain follow level ts a (t :: us) → level.operator? t.kind = some op →
      Chain follow level.tighter us b rest → Chain follow level ts (.binary t op a b) rest
  | tighter {level : Level} {ts : List Token} {e : Expression} {rest : List Token} :
      level ≠ .unary → Chain follow level.tighter ts e rest → Chain follow level ts e rest
  | unary {t : Token} {ts : List Token} {op : UnaryOp} {e : Expression} {rest : List Token} :
      unaryOperator? t.kind = some op → Chain follow .unary ts e rest →
      Chain follow .unary (t :: ts) (.unary t op e) rest
  | applied {ts : List Token} {e : Expression} {rest : List Token} :
      Applied follow ts e rest → Chain follow .unary ts e rest

/-- A primary with calls and member accesses after it. -/
inductive Applied (follow : List Token → Prop) : List Token → Expression → List Token → Prop
  | primary {ts : List Token} {e : Expression} {rest : List Token} :
      Primary follow ts e rest → Applied follow ts e rest
  | call {t : Token} {ts us : List Token} {e : Expression} {values : List Expression}
      {rest : List Token} :
      Applied follow ts e (t :: us) → t.kind = .leftParen → Arguments follow us values rest →
      Applied follow ts (.call t e values) rest
  | member {dot name : Token} {ts : List Token} {e : Expression} {rest : List Token} :
      Applied follow ts e (dot :: name :: rest) → dot.kind = .dot → name.kind = .identifier →
      Applied follow ts (.member dot e (.identifier (.ofToken name)) false) rest
  | index {left right : Token} {ts us : List Token} {e key : Expression} {rest : List Token} :
      Applied follow ts e (left :: us) → left.kind = .leftBracket →
      Expr follow us key (right :: rest) → right.kind = .rightBracket →
      Applied follow ts (.member left e key true) rest

/-- An expression without operators outside brackets. -/
inductive Primary (follow : List Token → Prop) : List Token → Expression → List Token → Prop
  | name {t : Token} {rest : List Token} :
      t.kind = .identifier → Primary follow (t :: rest) (.identifier (.ofToken t)) rest
  | literal {t : Token} {e : Expression} {rest : List Token} :
      Literal t e → Primary follow (t :: rest) e rest
  | grouped {left right : Token} {ts : List Token} {e : Expression} {rest : List Token} :
      left.kind = .leftParen → Expr follow ts e (right :: rest) → right.kind = .rightParen →
      Primary follow (left :: ts) e rest
  | function {t : Token} {ts us : List Token} {names : List Identifier} {body : Block}
      {rest : List Token} :
      t.kind = .func → Parameters ts names us → Body follow us body rest →
      Primary follow (t :: ts) (.function t names body) rest
  | conditional {t : Token} {ts : List Token} {c : Expression} {b : Block} {other : Option Block}
      {rest : List Token} :
      t.kind = .si → Branches follow ts c b other rest →
      Primary follow (t :: ts) (.conditional t c b other) rest
  | object {left : Token} {ts : List Token} {properties : List Property} {rest : List Token} :
      left.kind = .leftCurly → Entries follow ts properties rest →
      Primary follow (left :: ts) (.object left properties) rest

/-- The arguments of a call, up to the closing parenthesis. -/
inductive Arguments (follow : List Token → Prop) :
    List Token → List Expression → List Token → Prop
  | none {right : Token} {rest : List Token} :
      right.kind = .rightParen → Arguments follow (right :: rest) [] rest
  | some {right : Token} {ts : List Token} {values : List Expression} {rest : List Token} :
      Separated (Expr follow) ts values (right :: rest) → right.kind = .rightParen →
      Arguments follow ts values rest

/-- The properties of an object, up to the closing brace; a comma may stand after the last. -/
inductive Entries (follow : List Token → Prop) : List Token → List Property → List Token → Prop
  | none {right : Token} {rest : List Token} :
      right.kind = .rightCurly → Entries follow (right :: rest) [] rest
  | some {right : Token} {ts : List Token} {properties : List Property} {rest : List Token} :
      Separated (Entry follow) ts properties (right :: rest) → right.kind = .rightCurly →
      Entries follow ts properties rest
  | comma {comma right : Token} {ts : List Token} {properties : List Property}
      {rest : List Token} :
      Separated (Entry follow) ts properties (comma :: right :: rest) → comma.kind = .comma →
      right.kind = .rightCurly → Entries follow ts properties rest

/-- `key` or `key: value`. -/
inductive Entry (follow : List Token → Prop) : List Token → Property → List Token → Prop
  | key {t : Token} {rest : List Token} :
      t.kind = .identifier → Entry follow (t :: rest) (.mk (.ofToken t) none) rest
  | value {t colon : Token} {ts : List Token} {v : Expression} {rest : List Token} :
      t.kind = .identifier → colon.kind = .colon → Expr follow ts v rest →
      Entry follow (t :: colon :: ts) (.mk (.ofToken t) (some v)) rest

/-- `(condition) consequence alternative`, after `si` or `sinosi`. -/
inductive Branches (follow : List Token → Prop) :
    List Token → Expression → Block → Option Block → List Token → Prop
  | mk {left right : Token} {ts us vs : List Token} {c : Expression} {b : Block}
      {other : Option Block} {rest : List Token} :
      left.kind = .leftParen → Expr follow ts c (right :: us) → right.kind = .rightParen →
      Body follow us b vs → Alternative follow vs other rest →
      Branches follow (left :: ts) c b other rest

/-- `sino` and a block, or `sinosi` and what follows a `si`, which is a conditional by itself in
the alternative, or nothing. -/
inductive Alternative (follow : List Token → Prop) :
    List Token → Option Block → List Token → Prop
  | none {rest : List Token} : Alternative follow rest none rest
  | sino {t : Token} {ts : List Token} {b : Block} {rest : List Token} :
      t.kind = .sino → Body follow ts b rest → Alternative follow (t :: ts) (some b) rest
  | sinosi {t : Token} {ts : List Token} {c : Expression} {b : Block} {other : Option Block}
      {rest : List Token} :
      t.kind = .sinosi → Branches follow ts c b other rest →
      Alternative follow (t :: ts) (some (.mk t [.expression t (.conditional t c b other)])) rest

/-- A block: items in braces. -/
inductive Body (follow : List Token → Prop) : List Token → Block → List Token → Prop
  | mk {left right : Token} {ts : List Token} {statements : List Statement}
      {rest : List Token} :
      left.kind = .leftCurly → Items follow ts statements (right :: rest) →
      right.kind = .rightCurly → Body follow (left :: ts) (.mk left statements) rest

/-- A statement. -/
inductive Clause (follow : List Token → Prop) : List Token → Statement → List Token → Prop
  | declaration {t name equals : Token} {ts us : List Token} {v : Expression}
      {rest : List Token} :
      t.kind = .var ∨ t.kind = .constant → name.kind = .identifier → equals.kind = .assign →
      Expr follow ts v us → Ended follow us rest →
      Clause follow (t :: name :: equals :: ts)
        (.declaration t (.ofToken name) (some v) (t.kind = .constant)) rest
  | uninitialized {t name : Token} {us rest : List Token} :
      t.kind = .var → name.kind = .identifier → Ended Anything us rest →
      Clause follow (t :: name :: us) (.declaration t (.ofToken name) none false) rest
  | result {t : Token} {ts us : List Token} {v : Expression} {rest : List Token} :
      t.kind = .regresa → Expr follow ts v us → Ended follow us rest →
      Clause follow (t :: ts) (.result t (some v)) rest
  | bare {t : Token} {us rest : List Token} :
      t.kind = .regresa → AtEnd us → Ended Anything us rest →
      Clause follow (t :: us) (.result t none) rest
  | function {t name : Token} {ts us vs : List Token} {names : List Identifier} {body : Block}
      {rest : List Token} :
      t.kind = .func → name.kind = .identifier → Parameters ts names us →
      Body follow us body vs → Ended Anything vs rest →
      Clause follow (t :: name :: ts) (.function t (.ofToken name) names body) rest
  | expression {t : Token} {ts us : List Token} {e : Expression} {rest : List Token} :
      Expr follow (t :: ts) e us → Ended follow us rest →
      Clause follow (t :: ts) (.expression t e) rest

/-- A list of items, each a semicolon alone, which stands for nothing, or a statement. -/
inductive Items (follow : List Token → Prop) :
    List Token → List Statement → List Token → Prop
  | done {rest : List Token} : Items follow rest [] rest
  | semicolon {t : Token} {ts : List Token} {statements : List Statement} {rest : List Token} :
      t.kind = .semicolon → Items follow ts statements rest →
      Items follow (t :: ts) statements rest
  | statement {ts us : List Token} {s : Statement} {statements : List Statement}
      {rest : List Token} :
      Clause follow ts s us → Items follow us statements rest →
      Items follow ts (s :: statements) rest

end

/-- The tokens stand for the program. -/
def Derives (follow : List Token → Prop) (tokens : List Token) (program : Program) : Prop :=
  Items follow tokens program []

end Guion.Grammar
