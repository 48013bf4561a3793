import Guion.Number.Reading
import Guion.Token.Basic

/-!
# Scanning

Source text to tokens.  Scanning never fails: what belongs to no class becomes an illegal token.
Each step drops the layout before a token, takes the longest lexeme of the rest, and leaves
strictly less text, which is why `scan` ends.
-/

set_option autoImplicit false

namespace Guion

/-- Blanks between tokens. -/
def isSpace (c : Char) : Bool := c = ' ' || c = '\t' || c = '\r' || c = '\n'

/-- Letters of identifiers and reserved words. -/
def isLetter (c : Char) : Bool :=
  ('a' ≤ c && c ≤ 'z') || ('A' ≤ c && c ≤ 'Z') || c = '_' || "áéíóúÁÉÍÓÚñÑ".toList.contains c

/-- Splits the text into leading layout and the rest.  Layout is blanks and comments, which run
from `//` to the end of the line; `comment` tells whether the text starts inside a comment. -/
def splitLayout (comment : Bool) : List Char → List Char × List Char
  | [] => ([], [])
  | c :: cs =>
    if comment then
      let (skipped, rest) := splitLayout (c ≠ '\n') cs
      (c :: skipped, rest)
    else if isSpace c then
      let (skipped, rest) := splitLayout false cs
      (c :: skipped, rest)
    else if c = '/' ∧ cs.head? = some '/' then
      let (skipped, rest) := splitLayout true cs
      (c :: skipped, rest)
    else ([], c :: cs)

/-- A token cut off the front of a text: its kind, its spelling, and the text after it. -/
structure Lexeme where
  kind : Token.Kind
  spelling : List Char
  rest : List Char
deriving Repr, DecidableEq

namespace Lexeme

/-- The text of the token: the spelling, without the quotes of a string literal. -/
def text (l : Lexeme) : String :=
  if l.kind = .string then String.ofList (l.spelling.drop 1).dropLast
  else String.ofList l.spelling

/-- The lexeme of a text that starts with the digit `c`.  Digits followed by a point but by no
further digit are illegal as a whole. -/
def number (c : Char) (cs : List Char) : Lexeme :=
  let whole := c :: cs.takeWhile Number.isDigit
  match cs.dropWhile Number.isDigit with
  | '.' :: after =>
    match after.takeWhile Number.isDigit with
    | [] => ⟨.illegal, whole ++ ['.'], after⟩
    | fraction => ⟨.float, whole ++ '.' :: fraction, after.dropWhile Number.isDigit⟩
  | after => ⟨.integer, whole, after⟩

/-- The lexeme of a text that starts with the letter `c`. -/
def word (c : Char) (cs : List Char) : Lexeme :=
  let spelling := c :: cs.takeWhile isLetter
  ⟨(Token.keyword? (String.ofList spelling)).getD .identifier, spelling, cs.dropWhile isLetter⟩

/-- The lexeme of a text that starts with a quote, which `cs` follows.  Without a closing quote
all the rest is illegal. -/
def quoted (cs : List Char) : Lexeme :=
  match cs.dropWhile (· ≠ '"') with
  | [] => ⟨.illegal, '"' :: cs, []⟩
  | close :: after => ⟨.string, '"' :: cs.takeWhile (· ≠ '"') ++ [close], after⟩

/-- The kind of the one-character token `c`, if there is one. -/
def single? : Char → Option Token.Kind
  | '+' => some .plus
  | '-' => some .minus
  | '*' => some .star
  | '/' => some .slash
  | '(' => some .leftParen
  | ')' => some .rightParen
  | '\x7b' => some .leftCurly
  | '\x7d' => some .rightCurly
  | '[' => some .leftBracket
  | ']' => some .rightBracket
  | ',' => some .comma
  | ';' => some .semicolon
  | ':' => some .colon
  | '.' => some .dot
  | '=' => some .assign
  | '!' => some .bang
  | '<' => some .less
  | '>' => some .greater
  | _ => none

/-- The kind of the token made of `c` and an equals sign, if there is one. -/
def withEquals? : Char → Option Token.Kind
  | '=' => some .equal
  | '!' => some .notEqual
  | '<' => some .lessEqual
  | '>' => some .greaterEqual
  | _ => none

/-- The lexeme of a text that starts with any other character `c`. -/
def symbol (c : Char) (cs : List Char) : Lexeme :=
  match withEquals? c, cs with
  | some kind, '=' :: after => ⟨kind, [c, '='], after⟩
  | _, _ => ⟨(single? c).getD .illegal, [c], cs⟩

/-- The longest lexeme at the front of the text `c :: cs`, which does not start with layout. -/
def first (c : Char) (cs : List Char) : Lexeme :=
  if Number.isDigit c then number c cs
  else if isLetter c then word c cs
  else if c = '"' then quoted cs
  else symbol c cs

theorem length_dropWhile_le (p : Char → Bool) (cs : List Char) :
    (cs.dropWhile p).length ≤ cs.length :=
  (List.dropWhile_sublist p).length_le

/-- A lexeme takes at least one character. -/
theorem length_rest_first_le (c : Char) (cs : List Char) :
    (first c cs).rest.length ≤ cs.length := by
  have digits := length_dropWhile_le Number.isDigit cs
  unfold first number word quoted symbol
  repeat' split
  all_goals simp_all only [List.length_nil, List.length_cons, Nat.zero_le, Nat.le_refl]
  all_goals grind [length_dropWhile_le]

/-- A lexeme and the text after it are the text. -/
theorem spelling_append_rest (c : Char) (cs : List Char) :
    (first c cs).spelling ++ (first c cs).rest = c :: cs := by
  unfold first number word quoted symbol
  repeat' split
  all_goals grind [List.takeWhile_append_dropWhile]

end Lexeme

/-- The text still to be scanned and where it starts. -/
structure Cursor where
  pos : Position
  rest : List Char
deriving Repr, DecidableEq

/-- The start of `source`. -/
def Cursor.ofString (source : String) : Cursor := ⟨.start, source.toList⟩

/-- The cursor with leading layout dropped. -/
def Cursor.skipLayout (c : Cursor) : Cursor :=
  let (skipped, rest) := splitLayout false c.rest
  ⟨c.pos.advance skipped, rest⟩

theorem length_splitLayout_le (comment : Bool) (cs : List Char) :
    (splitLayout comment cs).2.length ≤ cs.length := by
  induction cs generalizing comment with
  | nil => simp [splitLayout]
  | cons c cs ih =>
    simp only [splitLayout]
    repeat' split
    all_goals grind

/-- Splitting layout off loses nothing. -/
theorem splitLayout_append (comment : Bool) (cs : List Char) :
    (splitLayout comment cs).1 ++ (splitLayout comment cs).2 = cs := by
  induction cs generalizing comment with
  | nil => rfl
  | cons c cs ih =>
    simp only [splitLayout]
    repeat' split
    all_goals simp [ih]

/-- The next token and the cursor after it.  At the end of the text the token is the end of
input, again and again. -/
def Cursor.next (c : Cursor) : Token × Cursor :=
  let d := c.skipLayout
  match d.rest with
  | [] => (⟨.endOfInput, "", d.pos⟩, d)
  | ch :: cs =>
    let l := Lexeme.first ch cs
    (⟨l.kind, l.text, d.pos⟩, ⟨d.pos.advance l.spelling, l.rest⟩)

/-- A scanned source: its tokens, and the end of input after them. -/
structure Scanned where
  tokens : List Token
  finish : Token
deriving Repr, DecidableEq

/-- A token other than the end of input leaves less text. -/
theorem Cursor.length_rest_next_lt {c : Cursor} (h : c.next.1.kind ≠ .endOfInput) :
    c.next.2.rest.length < c.rest.length := by
  have kept : c.skipLayout.rest.length ≤ c.rest.length := length_splitLayout_le false c.rest
  unfold Cursor.next at h ⊢
  cases text : c.skipLayout.rest with
  | nil => simp [text] at h
  | cons ch cs =>
    have shorter := Lexeme.length_rest_first_le ch cs
    simp only [text, List.length_cons] at kept ⊢
    omega

/-- Scans all that is left. -/
def Cursor.scan (c : Cursor) : Scanned :=
  let step := c.next
  if h : step.1.kind = .endOfInput then ⟨[], step.1⟩
  else
    have := length_rest_next_lt h
    let after := step.2.scan
    ⟨step.1 :: after.tokens, after.finish⟩
termination_by c.rest.length
decreasing_by exact this

/-- Scans `source`. -/
def scan (source : String) : Scanned := (Cursor.ofString source).scan

/-- All tokens of `source`, the end of input last. -/
def tokenize (source : String) : List Token :=
  let s := scan source
  s.tokens ++ [s.finish]

/-- The first `n` tokens of the rest of a text, the end of input repeated as needed. -/
def Cursor.take : Nat → Cursor → List Token
  | 0, _ => []
  | n + 1, c =>
    let (token, after) := c.next
    token :: after.take n

end Guion
