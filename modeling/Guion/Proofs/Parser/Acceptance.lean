import Guion.Proofs.Parser.Completeness
import Guion.Proofs.Parser.Soundness
import Guion.Proofs.Program.Erasure

/-!
# The parser accepts its grammar

A source is read as a program without errors, whatever larger nesting is allowed, exactly when its
tokens derive that program (`parse_iff_derives`).  The grammar is the one in which an expression
without a semicolon after it goes on as long as it can; without that condition it derives a program
that is not read (`two_statements_derived_not_read`).
-/

set_option autoImplicit false

namespace Guion

open Guion.Parser Guion.Grammar

/-- A program that the tokens of a source derive is what the source is read as. -/
theorem parse_of_derives {source : String} {p : Program} {limit : Nat}
    (h : Derives Unextended (scan source).tokens p) (room : (scan source).tokens.length ≤ limit) :
    parse limit source = ⟨p, []⟩ := by
  have shallow : (State.ofScanned (scan source)).depth + (scan source).tokens.length ≤ limit := by
    rw [State.ofScanned, Nat.zero_add]
    exact room
  have run := program_of_derives (State.sane_ofScanned source) h shallow
  rw [parse, Scanned.parse, EStateM.run, run]
  rfl

/-- What a source is read as without an error is derived from its tokens. -/
theorem derives_of_parse {source : String} {limit : Nat} (h : (parse limit source).errors = []) :
    Derives Unextended (scan source).tokens (parse limit source).program := by
  have sane := State.sane_ofScanned source
  obtain ⟨p, t, run⟩ := program_eq_ok limit sane.finish
  rw [parse, Scanned.parse, EStateM.run, run] at h ⊢
  have clean : Clean (program limit) (State.ofScanned (scan source)) p t :=
    ⟨sane, run, Array.toList_eq_nil_iff.1 h⟩
  exact clean.program

/-- A source is read as a program, up to tokens, exactly when its tokens derive it. -/
theorem parse_iff_derives (source : String) (p : Program) :
    (∃ enough, ∀ limit ≥ enough, (parse limit source).errors = [] ∧
        (parse limit source).program.erase = p.erase) ↔
      ∃ q : Program, Derives Unextended (words source) q ∧ q.erase = p.erase := by
  rw [words_eq]
  constructor
  · rintro ⟨enough, read⟩
    obtain ⟨clean, same⟩ := read enough (Nat.le_refl _)
    exact ⟨_, derives_of_parse clean, same⟩
  · rintro ⟨q, derived, same⟩
    refine ⟨(scan source).tokens.length, fun limit room => ?_⟩
    rw [parse_of_derives derived room]
    exact ⟨rfl, same⟩

/-! ## Why an expression goes on as long as it can -/

/-- The tokens of `a (b)`. -/
def ambiguous : List Token :=
  [⟨.identifier, "a", ⟨0, 1, 1⟩⟩, ⟨.leftParen, "(", ⟨2, 1, 3⟩⟩, ⟨.identifier, "b", ⟨3, 1, 4⟩⟩,
    ⟨.rightParen, ")", ⟨4, 1, 5⟩⟩]

theorem scan_ambiguous : (scan "a (b)").tokens = ambiguous := by
  decide +kernel

/-- Two statements, each a name. -/
def twoNames : Program :=
  [.expression default (.identifier ⟨default, "a"⟩),
    .expression default (.identifier ⟨default, "b"⟩)]

/-- Without a condition on what follows an expression, `a (b)` derives two statements.  It is read
as the call that it derives otherwise. -/
theorem two_statements_derived_not_read :
    (∃ q : Program, Derives Anything (words "a (b)") q ∧ q.erase = twoNames.erase) ∧
      ¬ ∃ enough, ∀ limit ≥ enough, (parse limit "a (b)").errors = [] ∧
        (parse limit "a (b)").program.erase = twoNames.erase := by
  have two : Derives Anything ambiguous _ :=
    .statement (.expression (Applied.primary (.name rfl)).expr (.nothing trivial))
      (.statement (.expression (Applied.primary
        (.grouped rfl (Applied.primary (.name rfl)).expr rfl)).expr (.nothing trivial)) .done)
  have call : Derives Unextended ambiguous _ :=
    .statement (.expression (Applied.call (.primary (.name rfl)) rfl
      (.some (.one (Applied.primary (.name rfl)).expr) rfl)).expr (.nothing nofun)) .done
  constructor
  · rw [words_eq, scan_ambiguous]
    exact ⟨_, two, rfl⟩
  · rintro ⟨enough, read⟩
    obtain ⟨-, same⟩ := read (max enough 4) (Nat.le_max_left _ _)
    rw [← scan_ambiguous] at call
    rw [parse_of_derives call (by rw [scan_ambiguous]; exact Nat.le_max_right _ _)] at same
    cases same

end Guion
