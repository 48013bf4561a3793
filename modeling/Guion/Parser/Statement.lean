import Guion.Parser.Expression

/-!
# Statements and programs

Statements, the blocks made of them, and whole programs.  A malformed statement is recorded and
skipped; all others stay.
-/

set_option autoImplicit false

namespace Guion

namespace Parser

/-- A declaration; the current token is `var`, or `let` for a constant, which needs a value. -/
def declaration (inner : Productions) : Parser Statement := do
  let token ← current
  let constant : Bool := token.kind = .constant
  let name ← expectIdentifier
  if (← peek).kind = .assign then
    advance
    let value ← nextExpression inner .lowest
    skipSemicolon
    return .declaration token name (some value) constant
  else
    skipSemicolon
    if constant then failAt name.token.pos (.missingInitializer name.name)
    else return .declaration token name none constant

/-- What is returned, if the statement does not end at once. -/
def resultValue (inner : Productions) : Parser (Option Expression) := do
  match (← peek).kind with
  | .semicolon | .rightCurly | .endOfInput => return none
  | _ => some <$> nextExpression inner .lowest

/-- The current token is `regresa`. -/
def result (inner : Productions) : Parser Statement := do
  let token ← current
  let value ← resultValue inner
  skipSemicolon
  return .result token value

/-- A named function; the current token is `func`, and the next one the name. -/
def function (bound : Nat) (inner : Productions) : Parser Statement := do
  let token ← current
  let name ← expectIdentifier
  let (names, body) ← functionRest bound inner
  skipSemicolon
  return .function token name names body

/-- A statement, which a semicolon alone is not. -/
def statement (bound : Nat) (inner : Productions) : Parser (Option Statement) := do
  let token ← current
  match token.kind with
  | .semicolon => return none
  | .var | .constant => some <$> declaration inner
  | .regresa => some <$> result inner
  | _ =>
    if token.kind = .func ∧ (← peek).kind = .identifier then some <$> function bound inner
    else
      let value ← inner.expression .lowest
      skipSemicolon
      return some (.expression token value)

/-- A statement, recovered from if malformed, and the move past its last token. -/
def item (bound : Nat) (inner : Productions) : Parser (List Statement) := do
  let found ← recovering (statement bound inner)
  advance
  return found.toList

/-- The next statement of a block, or nothing at its closing brace; `token` opened the block. -/
def blockItem (bound : Nat) (inner : Productions) (token : Token) :
    Parser (Option (List Statement)) := do
  match (← current).kind with
  | .rightCurly => return none
  | .endOfInput => failAt token.pos .unterminatedBlock
  | _ => return some (← item bound inner)

/-- A block; the current token is its opening brace. -/
def block (bound : Nat) (inner : Productions) : Parser Block := do
  let token ← current
  advance
  let statements ← Bounded.collect (blockItem bound inner token) bound
  return .mk token statements

/-- The productions at one level, given those one level further in. -/
def Productions.next (limit bound : Nat) (inner : Productions) : Productions where
  expression := Parser.expression limit bound inner
  block := Parser.block bound inner
  conditional := Parser.conditional limit inner

/-- The productions for states with fewer than `bound` tokens. -/
def Productions.upTo (limit : Nat) : Nat → Productions
  | 0 => ⟨fun _ => Bounded.exhausted, Bounded.exhausted, fun _ => Bounded.exhausted⟩
  | bound + 1 => Productions.next limit (bound + 1) (Productions.upTo limit bound)

/-- The next statement of a program, or nothing at the end of input. -/
def programItem (bound : Nat) (inner : Productions) : Parser (Option (List Statement)) := do
  match (← current).kind with
  | .endOfInput => return none
  | _ => return some (← item bound inner)

/-- A program: statements up to the end of input. -/
def program (limit : Nat) : Parser Program := do
  let inside := (← get).tokens.length + 1
  Bounded.collect (programItem (inside + 1) (Productions.upTo limit inside)) (inside + 1)

end Parser

/-- What a source text was read as: the well-formed statements, and an error for each other. -/
structure Parsed where
  program : Program
  errors : List SyntaxError

/-- Reads scanned text with nesting up to `limit`.  Statements recover from their own errors and
the bound covers all tokens, so the second case is there for totality only. -/
def Scanned.parse (limit : Nat) (s : Scanned) : Parsed :=
  match (Parser.program limit).run (.ofScanned s) with
  | .ok program t => ⟨program, t.errors.toList⟩
  | .error _ t => ⟨[], t.errors.toList⟩

/-- Reads `source` with nesting up to `limit`. -/
def parse (limit : Nat) (source : String) : Parsed := (scan source).parse limit

end Guion
