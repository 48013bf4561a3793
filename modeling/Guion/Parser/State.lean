import Guion.Bounded
import Guion.Parser.Error
import Guion.Program.Basic
import Guion.Token.Scan

/-!
# Parser steps

A parser looks at the token it stands on and at the one after it.  It fails with a single syntax
error; failures are recorded and parsing resumes only where statements are read.  The nesting
depth is part of the state, so every production leaves it as it found it or says otherwise.
-/

set_option autoImplicit false

namespace Guion

/-- What a parser has before it and what it has recorded. -/
structure Parser.State where
  /-- The tokens left, the current one first, without the end of input. -/
  tokens : List Token
  /-- The end of input, current once all tokens are used up. -/
  finish : Token
  /-- Levels of nesting entered and not left. -/
  depth : Nat
  /-- The errors recorded so far. -/
  errors : Array SyntaxError
deriving Repr, DecidableEq

/-- Parsers yielding `α`. -/
abbrev Parser (α : Type) : Type := Bounded SyntaxError Parser.State α

namespace Parser

variable {α : Type}

/-- The start of a scanned source. -/
def State.ofScanned (s : Scanned) : State := ⟨s.tokens, s.finish, 0, #[]⟩

/-- The token a parser stands on. -/
def State.current (s : State) : Token := s.tokens.headD s.finish

/-- The token after the current one. -/
def State.peek (s : State) : Token := s.tokens.tail.headD s.finish

/-- The state one token on. -/
def State.advance (s : State) : State := { s with tokens := s.tokens.tail }

/-- The token a parser stands on. -/
def current : Parser Token := return (← get).current

/-- The token after the current one. -/
def peek : Parser Token := return (← get).peek

/-- Moves to the next token. -/
def advance : Parser Unit := modify State.advance

/-- Fails with a fault found at `pos`. -/
def failAt (pos : Position) (fault : SyntaxError.Fault) : Parser α := Bounded.fail ⟨pos, fault⟩

/-- Fails with a fault found at the current token. -/
def failHere (fault : SyntaxError.Fault) : Parser α := do failAt (← current).pos fault

/-- Moves to the next token, which has to be of the kind `expected`. -/
def expect (expected : Token.Kind) : Parser Unit := do
  let token ← peek
  if token.kind = expected then advance
  else failAt token.pos (.unexpectedToken expected token.render)

/-- Moves to the next token, which has to be an identifier. -/
def expectIdentifier : Parser Identifier := do
  expect .identifier
  return .ofToken (← current)

/-- Moves to the next token if it is a semicolon. -/
def skipSemicolon : Parser Unit := do
  if (← peek).kind = .semicolon then advance

/-- Enters one more level of nesting, of which there are at most `limit`. -/
def enter (limit : Nat) : Parser Unit := do
  let s ← get
  if limit ≤ s.depth then failAt s.current.pos (.nestingTooDeep limit)
  else set { s with depth := s.depth + 1 }

/-- The state one level of nesting up. -/
def State.leave (s : State) : State := { s with depth := s.depth - 1 }

/-- Runs a parser one level deeper. -/
def nested (limit : Nat) (p : Parser α) : Parser α := do
  enter limit
  Bounded.ensuring State.leave p

/-- Runs a parser and goes back to the depth it started at. -/
def keepingDepth (p : Parser α) : Parser α := do
  let s ← get
  Bounded.ensuring (fun t => { t with depth := s.depth }) p

/-- The next token ends the enclosing block or the input. -/
def atBlockEnd : List Token → Bool
  | [] => true
  | t :: _ => t.kind = .rightCurly

/-- Where parsing resumes after a malformed statement: at its semicolon, or just before the brace
that closes the enclosing block.  Braces opened on the way, `opened` so far, are skipped whole. -/
def resume (opened : Nat) : List Token → List Token
  | [] => []
  | t :: rest =>
    let opened := match t.kind with
      | .leftCurly => opened + 1
      | .rightCurly => opened - 1
      | _ => opened
    if opened = 0 ∧ (t.kind = .semicolon ∨ atBlockEnd rest) then t :: rest
    else resume opened rest

/-- The state after recording an error and skipping the rest of its statement. -/
def State.recover (s : State) (e : SyntaxError) : State :=
  { s with tokens := resume 0 s.tokens, errors := s.errors.push e }

/-- Runs a parser of a statement; a malformed statement is recorded, skipped and yields nothing. -/
def recovering (p : Parser (Option α)) : Parser (Option α) := fun s =>
  match p s with
  | .error (.error e) t => .ok none (t.recover e)
  | outcome => outcome

end Parser

end Guion
