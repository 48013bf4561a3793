import Guion.Proofs.Parser.Acceptance
import Guion.Proofs.Parser.Separation
import Guion.Proofs.Program.Nodes
import Guion.Proofs.Program.Printable

/-!
# Integer literals

A run of digits alone, of any length and with any zeros before it, is one token, and is read as its
decimal value where that has 63 bits; otherwise it is the one error of the text and nothing is read
(`integers_exact`).  So the decimal rendering of a number of 63 bits is read as the number.

That a literal fits is a matter of the grammar, so what is read then is what its token derives.  The
other case is followed through the productions up to the statement that recovers from it.
-/

set_option autoImplicit false

namespace Guion

/-! ## Scanning -/

/-- Digits alone are one token. -/
theorem tokens_of_digits {text : String} (digits : DigitRun text.toList) :
    (scan text).tokens = [⟨.integer, text, .start⟩] := by
  have run := tokensAt_digits digits (show Apart Number.isDigit [] by rintro _ ⟨⟩) (by simp) .start
  rw [List.append_nil, tokensAt_start] at run
  rw [run, tokensAt, Cursor.scan_nil]

theorem tokenize_of_digits {text : String} (digits : DigitRun text.toList) :
    tokenize text = [⟨.integer, text, .start⟩, ⟨.endOfInput, "", .after text.toList⟩] := by
  rw [tokenize, tokens_of_digits digits, finish_scan]
  rfl

/-! ## Literals that fit -/

open Grammar in
/-- An integer that fits derives a statement by itself. -/
theorem derives_integer {token : Token} (kind : token.kind = .integer)
    (small : Number.ofDigits token.text.toList < 2 ^ 63) :
    Derives Unextended [token]
      [.expression token (.integer token (Number.ofDigits token.text.toList))] :=
  .statement (.expression (Applied.primary (.literal (.integer kind small))).expr (.nothing nofun))
    .done

/-! ## Literals that do not fit -/

namespace Parser

open Bounded

variable {limit bound : Nat} {inner : Productions} {s : State}

/-- An integer that does not fit is an error at its token. -/
theorem operand_of_large (kind : s.current.kind = .integer)
    (large : Number.readInteger? s.current.text = none) :
    operand limit bound inner s =
      .error (.error ⟨s.current.pos, .badIntegerLiteral s.current.text⟩) s := by
  rw [operand, current_bind]
  simp only [kind, large]
  rfl

/-- An operand that fails where it starts fails the expression, at the depth that it started at. -/
theorem expression_of_operand_error {power : BindingPower} {e : SyntaxError}
    (room : s.depth < limit)
    (run : operand limit bound inner { s with depth := s.depth + 1 } =
      .error (.error e) { s with depth := s.depth + 1 }) :
    expression limit bound inner power s = .error (.error e) s := by
  rw [expression, nested, bind_of_ok (enter_of_lt room), ensuring, bind_of_error run]
  rfl

theorem statement_of_large (room : s.depth < limit) (kind : s.current.kind = .integer)
    (large : Number.readInteger? s.current.text = none) (n : Nat) :
    statement bound (Productions.upTo limit (n + 1)) s =
      .error (.error ⟨s.current.pos, .badIntegerLiteral s.current.text⟩) s := by
  have failed : (Productions.upTo limit (n + 1)).expression .lowest s =
      .error (.error ⟨s.current.pos, .badIntegerLiteral s.current.text⟩) s :=
    expression_of_operand_error room (operand_of_large kind large)
  rw [statement_of_ne (by simp [kind]) (by simp [kind]) (by simp [kind]) (by simp [kind])
    (by simp [kind]), bind_of_error failed]

/-- An integer alone that does not fit is recorded and skipped. -/
theorem program_of_large {token : Token} (room : s.depth < limit)
    (finish : s.finish.kind = .endOfInput) (tokens : s.tokens = [token])
    (kind : token.kind = .integer) (large : Number.readInteger? token.text = none) :
    program limit s = .ok [] { s with
      tokens := [], errors := s.errors.push ⟨token.pos, .badIntegerLiteral token.text⟩ } := by
  obtain rfl : s.current = token := State.current_of_tokens tokens
  let after : State := { s with
    tokens := [], errors := s.errors.push ⟨s.current.pos, .badIntegerLiteral s.current.text⟩ }
  -- recovery stays at the literal, as the end of input follows
  have resumed : resume 0 s.tokens = [s.current] := by
    rw [tokens]
    simp [resume, kind, atBlockEnd]
  have passed : (s.recover ⟨s.current.pos, .badIntegerLiteral s.current.text⟩).advance = after := by
    rw [State.recover, resumed]
    rfl
  have before : s.current.kind ≠ .endOfInput := by simp [kind]
  have skipped (bound n : Nat) : programItem bound (Productions.upTo limit (n + 1)) s =
      .ok (some []) after := by
    rw [programItem_of_ne before, ← passed]
    exact map_some_of_ok (item_of_error (statement_of_large room kind large n))
  have last (bound : Nat) (inner : Productions) : programItem bound inner after = .ok none after :=
    programItem_of_endOfInput finish
  refine collect_go (skipped _ _) (?_ : collect _ (_ + 1) after = _)
  rw [collect, bind_of_ok (last _ _)]
  rfl

end Parser

theorem parse_of_large {limit : Nat} {text : String} (room : 0 < limit)
    (digits : DigitRun text.toList) (large : ¬ Number.ofDigits text.toList < 2 ^ 63) :
    parse limit text = ⟨[], [⟨.start, .badIntegerLiteral text⟩]⟩ := by
  have unread : Number.readInteger? text = none := by
    rw [Number.readInteger?_of_digits digits.1 digits.2]
    exact if_neg large
  have run := Parser.program_of_large (s := .ofScanned (scan text)) room (kind_finish_scan text)
    (tokens_of_digits digits) rfl unread
  rw [parse, Scanned.parse, EStateM.run, run]
  rfl

/-! ## Both -/

/-- Digits alone are read as their decimal value, or are an error if they do not fit. -/
theorem parse_of_digits {limit : Nat} {text : String} (room : 0 < limit)
    (digits : DigitRun text.toList) :
    parse limit text =
      if Number.ofDigits text.toList < 2 ^ 63 then
        ⟨[.expression ⟨.integer, text, .start⟩
          (.integer ⟨.integer, text, .start⟩ (Number.ofDigits text.toList))], []⟩
      else ⟨[], [⟨.start, .badIntegerLiteral text⟩]⟩ := by
  have tokens := tokens_of_digits digits
  split
  · rename_i small
    -- a text of one token nests no deeper than one level
    refine parse_of_derives ?_ (by rw [tokens]; exact room)
    rw [tokens]
    exact derives_integer rfl small
  · rename_i large
    exact parse_of_large room digits large

/-- **Integer literals are exact.**  A run of digits is one token.  It is read as the statement that
is its decimal value if that is below `2 ^ 63`, and otherwise as nothing, with one error.  The
decimal rendering of each number below `2 ^ 63` is read as that number, which is rendered so. -/
theorem integers_exact {limit : Nat} (room : 1 ≤ limit) :
    (∀ text : String, DigitRun text.toList →
        let token : Token := ⟨.integer, text, .start⟩
        tokenize text = [token, ⟨.endOfInput, "", .after text.toList⟩] ∧
          parse limit text =
            if Number.decimal text < 2 ^ 63 then
              ⟨[.expression token (.integer token (Number.decimal text))], []⟩
            else ⟨[], [⟨token.pos, .badIntegerLiteral text⟩]⟩) ∧
      ∀ n : Nat, n < 2 ^ 63 →
        let token : Token := ⟨.integer, toString n, .start⟩
        parse limit (toString n) = ⟨[.expression token (.integer token n)], []⟩ ∧
          (Expression.integer token n).render = toString n := by
  constructor
  · intro text digits token
    rw [← Number.ofDigits_toList]
    exact ⟨tokenize_of_digits digits, parse_of_digits room digits⟩
  · intro n small token
    have value : Number.ofDigits (toString n).toList = n := ofDigits_toString n
    have digits : DigitRun (toString n).toList := digitRun_toString n
    have read := parse_of_digits room digits
    rw [value, if_pos small] at read
    exact ⟨read, rfl⟩

/-- The first number that does not fit, with zeros before it, and the last one that does. -/
theorem integers_exact_at_limit :
    let large := "0009223372036854775808"
    let last : Nat := 2 ^ 63 - 1
    let token : Token := ⟨.integer, toString last, .start⟩
    1 ≤ 1 ∧ DigitRun large.toList ∧ ¬ Number.decimal large < 2 ^ 63 ∧
      parse 1 large = ⟨[], [⟨.start, .badIntegerLiteral large⟩]⟩ ∧ last < 2 ^ 63 ∧
      parse 1 (toString last) = ⟨[.expression token (.integer token last)], []⟩ := by
  intro large last token
  have digits : DigitRun large.toList := ⟨by decide, by decide⟩
  have above : ¬ Number.decimal large < 2 ^ 63 := by decide +kernel
  have below : last < 2 ^ 63 := by decide
  obtain ⟨texts, numbers⟩ := integers_exact (Nat.le_refl 1)
  have read := (texts large digits).2
  rw [if_neg above] at read
  exact ⟨Nat.le_refl 1, digits, above, read, below, (numbers last below).1⟩

end Guion
