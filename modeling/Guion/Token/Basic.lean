/-!
# Tokens

The words of a program: what kinds there are, how each kind is named in messages, which words are
reserved, and where in the source text a token starts.
-/

set_option autoImplicit false

namespace Guion

/-- Where a token starts in the source text. -/
structure Position where
  /-- Bytes of UTF-8 before it. -/
  offset : Nat
  /-- Line number, from one. -/
  line : Nat
  /-- Column in characters, from one. -/
  column : Nat
deriving Repr, DecidableEq, Inhabited

namespace Position

/-- The start of a source text. -/
def start : Position := ⟨0, 1, 1⟩

/-- The position after the character `c`. -/
def next (p : Position) (c : Char) : Position :=
  if c = '\n' then ⟨p.offset + c.utf8Size, p.line + 1, 1⟩
  else ⟨p.offset + c.utf8Size, p.line, p.column + 1⟩

/-- The position after all of `cs`. -/
def advance (p : Position) (cs : List Char) : Position := cs.foldl next p

/-- Line and column, as messages show them. -/
def render (p : Position) : String := toString p.line ++ ":" ++ toString p.column

end Position

/-- Classification of tokens. -/
inductive Token.Kind where
  | endOfInput
  | illegal
  | identifier
  | integer
  | float
  | string
  | assign
  | equal
  | notEqual
  | less
  | lessEqual
  | greater
  | greaterEqual
  | plus
  | minus
  | star
  | slash
  | bang
  | leftParen
  | rightParen
  | leftCurly
  | rightCurly
  | leftBracket
  | rightBracket
  | comma
  | semicolon
  | colon
  | dot
  | verdadero
  | falso
  | si
  | sino
  | sinosi
  | func
  | var
  | constant
  | regresa
  | para
deriving Repr, DecidableEq, Inhabited

/-- The name of a kind in messages: its spelling where it has only one. -/
def Token.Kind.render : Token.Kind → String
  | .endOfInput => "EOF"
  | .illegal => "illegal"
  | .identifier => "identifier"
  | .integer => "integer"
  | .float => "float"
  | .string => "string"
  | .assign => "="
  | .equal => "=="
  | .notEqual => "!="
  | .less => "<"
  | .lessEqual => "<="
  | .greater => ">"
  | .greaterEqual => ">="
  | .plus => "+"
  | .minus => "-"
  | .star => "*"
  | .slash => "/"
  | .bang => "!"
  | .leftParen => "("
  | .rightParen => ")"
  | .leftCurly => "\x7b"
  | .rightCurly => "\x7d"
  | .leftBracket => "["
  | .rightBracket => "]"
  | .comma => ","
  | .semicolon => ";"
  | .colon => ":"
  | .dot => "."
  | .verdadero => "verdadero"
  | .falso => "falso"
  | .si => "si"
  | .sino => "sino"
  | .sinosi => "sinosi"
  | .func => "func"
  | .var => "var"
  | .constant => "let"
  | .regresa => "regresa"
  | .para => "para"

/-- A word of the source text.  The text of a string literal leaves its quotes out. -/
structure Token where
  kind : Token.Kind
  text : String
  pos : Position
deriving Repr, DecidableEq, Inhabited

/-- A token as messages show it. -/
def Token.render (t : Token) : String :=
  if t.kind = .endOfInput then "EOF" else t.text

/-- The reserved words. -/
def Token.keywords : List (String × Token.Kind) :=
  [("var", .var), ("let", .constant), ("si", .si), ("sino", .sino), ("sinosi", .sinosi),
   ("verdadero", .verdadero), ("falso", .falso), ("func", .func), ("para", .para),
   ("regresa", .regresa)]

/-- The reserved word spelled by `word`, if any. -/
def Token.keyword? (word : String) : Option Token.Kind := Token.keywords.lookup word

end Guion
