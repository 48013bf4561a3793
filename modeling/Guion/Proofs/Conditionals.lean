import Guion.Proofs.Layout
import Guion.Proofs.Parser.Chains
import Guion.Proofs.Token.Enclosing

/-!
# Chained conditionals

`sinosi` stands for a conditional in a block of its own after `sino`.  A chain of conditionals whose
conditions and blocks are any texts with matching brackets can be written either way
(`Chain.withSinosi`, `Chain.withBlocks`).  Both are read without errors under the same limits on
nesting, and then as the same program but for its tokens (`sinosi_is_nested_si`).

Both texts are scanned as spellings of one chain of branches (`spells_chainedText`,
`spells_nestedText`), and the branches alone settle what a spelling is read as (`Spells.parse_iff`).
-/

set_option autoImplicit false

namespace Guion

open Guion.Parser

/-! ## Texts without places -/

/-- What a text without errors is read as, tokens apart, is what its tokens without places are. -/
theorem parse_iff_reading {limit : Nat} {source : String} {q : Program} :
    ((parse limit source).errors = [] ∧ (parse limit source).program.erase = q) ↔
      ∃ p t, Clean (program limit) (.reading (shapes source.toList) 0) p t ∧ p.erase = q := by
  let unplaced := (scan source).move fun _ => default
  -- the end of input has no text, so without its place it is always the same
  have start : State.ofScanned unplaced = .reading (shapes source.toList) 0 :=
    congrArg (State.mk (shapes source.toList) · 0 #[])
      (Cursor.shape_finish (Cursor.ofString source))
  have moved : unplaced.parse limit = (parse limit source).move fun _ => default :=
    Scanned.parse_move _ limit (kind_finish_scan source)
  have sane : (State.reading (shapes source.toList) 0).Sane := ⟨rfl, lexed_shapes source.toList⟩
  obtain ⟨p, t, run⟩ := program_eq_ok limit sane.finish
  have read : (parse limit source).move (fun _ => default) = ⟨p, t.errors.toList⟩ := by
    rw [← moved, Scanned.parse, EStateM.run, start, run]
  have program : (parse limit source).program.erase = p.erase := by
    rw [← Program.erase_move fun _ => default]
    exact congrArg (fun parsed => parsed.program.erase) read
  have errors : (parse limit source).errors = [] ↔ t.errors = #[] := by
    have same : (parse limit source).errors.map (SyntaxError.move fun _ => default) =
        t.errors.toList := congrArg Parsed.errors read
    rw [← Array.toList_eq_nil_iff, ← same, List.map_eq_nil_iff]
  rw [errors, program]
  constructor
  · rintro ⟨none, same⟩
    exact ⟨p, t, ⟨sane, run, none⟩, same⟩
  · rintro ⟨p', t', clean, same⟩
    cases run.symm.trans clean.run
    exact ⟨clean.errors, same⟩

/-! ## Texts between brackets -/

/-- A text that may stand between brackets: its own brackets match, and there is no comment in it
and no string without its closing quote. -/
structure Fragment where
  text : String
  uncommented : uncommented text = true := by decide +kernel
  terminated : ∀ t ∈ (scan text).tokens, t.unterminated = false := by decide +kernel
  matched : Matched (scan text).tokens := by decide +kernel

/-- The tokens of the text. -/
def Fragment.inside (fragment : Fragment) : Inside where
  val := shapes fragment.text.toList
  property := by
    have kinds : (shapes fragment.text.toList).map Token.kind =
        (scan fragment.text).tokens.map Token.kind := List.map_map
    exact (brackets_congr kinds []).trans fragment.matched

/-- The tokens up to the bracket that closes the text. -/
theorem Fragment.shapes_closed (fragment : Fragment) {stop : Char} (ends : EndsLexeme stop)
    (after : List Char) : shapes (fragment.text.toList ++ stop :: after) =
      fragment.inside ++ shapes (stop :: after) :=
  shapes_ended ends fragment.uncommented fragment.terminated after

theorem endsLexeme_rightParen : EndsLexeme ')' :=
  ⟨by decide, by decide, by decide, by decide, by decide⟩

theorem endsLexeme_rightCurly : EndsLexeme '\x7d' :=
  ⟨by decide, by decide, by decide, by decide, by decide⟩

theorem shapes_leftParen (rest : List Char) : shapes ('(' :: rest) = leftParen :: shapes rest :=
  shapes_mark '(' rfl (by decide) rest

theorem shapes_rightParen (rest : List Char) : shapes (')' :: rest) = rightParen :: shapes rest :=
  shapes_mark ')' rfl (by decide) rest

theorem shapes_leftCurly (rest : List Char) :
    shapes ('\x7b' :: rest) = leftCurly :: shapes rest :=
  shapes_mark '\x7b' rfl (by decide) rest

theorem shapes_rightCurly (rest : List Char) :
    shapes ('\x7d' :: rest) = rightCurly :: shapes rest :=
  shapes_mark '\x7d' rfl (by decide) rest

/-- A reserved word between blanks. -/
theorem shapes_word (text : String) {kind : Token.Kind} (reserved : Token.keyword? text = some kind)
    (rest : List Char) :
    shapes (text.toList ++ ' ' :: rest) = sign kind text :: shapes rest := by
  have apart : Apart isLetter (' ' :: rest) := by
    rintro c ⟨⟩
    decide
  rw [shapes_keyword text reserved apart, shapes_space (by decide)]
  rfl

/-! ## Chains -/

/-- The block in braces. -/
def Fragment.braced (fragment : Fragment) : String := "\x7b" ++ fragment.text ++ "\x7d"

/-- The texts of a condition and of the block that is run if it holds. -/
structure Arm where
  condition : Fragment
  body : Fragment

/-- The condition in parentheses and the block in braces. -/
def Arm.text (arm : Arm) : String := "(" ++ arm.condition.text ++ ") " ++ arm.body.braced

/-- A conditional, the conditionals chained to it, and the block run if no condition holds. -/
structure Chain where
  first : Arm
  others : List Arm
  last : Option Fragment

/-- The last alternative, if there is one. -/
def lastText : Option Fragment → String
  | none => ""
  | some fragment => " sino " ++ fragment.braced

/-- Each arm after `sinosi`. -/
def chainedText (last : Option Fragment) : List Arm → String
  | [] => lastText last
  | arm :: arms => " sinosi " ++ arm.text ++ chainedText last arms

/-- Each arm, with all that comes after it, as a conditional in a block after `sino`. -/
def nestedText (last : Option Fragment) : List Arm → String
  | [] => lastText last
  | arm :: arms => " sino \x7b si " ++ arm.text ++ nestedText last arms ++ " \x7d"

namespace Chain

/-- The chain written with `sinosi`. -/
def withSinosi (chain : Chain) : String :=
  "si " ++ chain.first.text ++ chainedText chain.last chain.others

/-- The chain written with a block after each `sino`. -/
def withBlocks (chain : Chain) : String :=
  "si " ++ chain.first.text ++ nestedText chain.last chain.others

end Chain

/-! ## What the texts spell -/

/-- The tokens of an arm. -/
def Arm.branch (arm : Arm) : Branch := ⟨arm.condition.inside, arm.body.inside⟩

theorem shapes_braced (fragment : Fragment) (rest : List Char) :
    shapes (fragment.braced.toList ++ rest) =
      leftCurly :: (fragment.inside ++ rightCurly :: shapes rest) := by
  have spelled : fragment.braced.toList ++ rest =
      '\x7b' :: (fragment.text.toList ++ '\x7d' :: rest) := by
    simp [Fragment.braced]
  rw [spelled, shapes_leftCurly, fragment.shapes_closed endsLexeme_rightCurly, shapes_rightCurly]

theorem shapes_arm (arm : Arm) (rest : List Char) :
    shapes (arm.text.toList ++ rest) = arm.branch.before (shapes rest) := by
  have spelled : arm.text.toList ++ rest =
      '(' :: (arm.condition.text.toList ++ ')' :: ' ' :: (arm.body.braced.toList ++ rest)) := by
    simp [Arm.text]
  rw [spelled, shapes_leftParen, arm.condition.shapes_closed endsLexeme_rightParen,
    shapes_rightParen, shapes_space (by decide), shapes_braced]
  rfl

/-- Whatever follows it, the text is scanned as a spelling of the arms and the last alternative. -/
def Spells (text : String) (arms : List Arm) (last : Option Fragment) : Prop :=
  ∃ ts, Spelled (arms.map Arm.branch) (last.map Fragment.inside) ts ∧
    ∀ rest, shapes (text.toList ++ rest) = ts ++ shapes rest

theorem spells_lastText (last : Option Fragment) : Spells (lastText last) [] last := by
  cases last with
  | none => exact ⟨[], .nothing, fun rest => rfl⟩
  | some fragment =>
    refine ⟨_, .sino fragment.inside, fun rest => ?_⟩
    have spelled : (lastText (some fragment)).toList ++ rest =
        ' ' :: ("sino".toList ++ ' ' :: (fragment.braced.toList ++ rest)) := by
      simp [lastText]
    rw [spelled, shapes_space (by decide), shapes_word "sino" rfl, shapes_braced]
    simp

theorem spells_chainedText (last : Option Fragment) (arms : List Arm) :
    Spells (chainedText last arms) arms last := by
  induction arms with
  | nil => exact spells_lastText last
  | cons arm arms ih =>
    obtain ⟨ts, spelling, scanned⟩ := ih
    refine ⟨_, .sinosi arm.branch spelling, fun rest => ?_⟩
    have spelled : (chainedText last (arm :: arms)).toList ++ rest =
        ' ' :: ("sinosi".toList ++ ' ' ::
          (arm.text.toList ++ ((chainedText last arms).toList ++ rest))) := by
      simp [chainedText]
    rw [spelled, shapes_space (by decide), shapes_word "sinosi" rfl, shapes_arm, scanned,
      List.cons_append, Branch.before_append]

theorem spells_nestedText (last : Option Fragment) (arms : List Arm) :
    Spells (nestedText last arms) arms last := by
  induction arms with
  | nil => exact spells_lastText last
  | cons arm arms ih =>
    obtain ⟨ts, spelling, scanned⟩ := ih
    refine ⟨_, .nested arm.branch spelling, fun rest => ?_⟩
    have spelled : (nestedText last (arm :: arms)).toList ++ rest =
        ' ' :: ("sino".toList ++ ' ' :: '\x7b' :: ' ' :: ("si".toList ++ ' ' ::
          (arm.text.toList ++ ((nestedText last arms).toList ++ ' ' :: '\x7d' :: rest)))) := by
      simp [nestedText]
    rw [spelled, shapes_space (by decide), shapes_word "sino" rfl, shapes_leftCurly,
      shapes_space (by decide), shapes_word "si" rfl, shapes_arm, scanned,
      shapes_space (by decide), shapes_rightCurly]
    simp [Branch.before_append]

/-- A text is read as the chain that it spells. -/
theorem Spells.parse_iff {text : String} {arms : List Arm} {last : Option Fragment}
    (spells : Spells text arms last) (limit : Nat) (first : Arm) (q : Program) :
    ((parse limit ("si " ++ first.text ++ text)).errors = [] ∧
        (parse limit ("si " ++ first.text ++ text)).program.erase = q) ↔
      ReadsAs limit 0 ((first :: arms).map Arm.branch) (last.map Fragment.inside)
        (some (.mk default q)) := by
  obtain ⟨ts, spelling, scanned⟩ := spells
  have tokens : shapes ("si " ++ first.text ++ text).toList = si :: first.branch.before ts := by
    have spelled : ("si " ++ first.text ++ text).toList =
        "si".toList ++ ' ' :: (first.text.toList ++ (text.toList ++ [])) := by
      simp
    rw [spelled, shapes_word "si" rfl, shapes_arm, scanned, shapes_nil, List.append_nil]
  rw [parse_iff_reading, tokens]
  exact spelling.program_iff ⟨rfl, tokens ▸ lexed_shapes _⟩

/-- **`sinosi` is a nested `si`.**  Under every limit, a chain written with `sinosi` is read without
errors if and only if the same chain written with blocks is, and then the two are the same program,
tokens apart. -/
theorem sinosi_is_nested_si (limit : Nat) (chain : Chain) :
    ((parse limit chain.withSinosi).errors = [] ↔ (parse limit chain.withBlocks).errors = []) ∧
      ((parse limit chain.withSinosi).errors = [] →
        (parse limit chain.withSinosi).program.erase =
          (parse limit chain.withBlocks).program.erase) := by
  -- both texts spell one chain, so each is read as `q` exactly when the chain is
  have same (q : Program) :
      ((parse limit chain.withSinosi).errors = [] ∧
          (parse limit chain.withSinosi).program.erase = q) ↔
        ((parse limit chain.withBlocks).errors = [] ∧
          (parse limit chain.withBlocks).program.erase = q) :=
    ((spells_chainedText chain.last chain.others).parse_iff limit chain.first q).trans
      ((spells_nestedText chain.last chain.others).parse_iff limit chain.first q).symm
  constructor
  · constructor
    · exact fun clean => ((same _).1 ⟨clean, rfl⟩).1
    · exact fun clean => ((same _).2 ⟨clean, rfl⟩).1
  · exact fun clean => ((same _).1 ⟨clean, rfl⟩).2.symm

/-- A brace in a string, parentheses around a condition, an empty block and an object. -/
def Chain.sample : Chain where
  first := ⟨{ text := "a == \"\x7d\"" }, { text := "o[0]" }⟩
  others := [⟨{ text := "(c)" }, { text := "" }⟩, ⟨{ text := "d()" }, { text := "1.5; e" }⟩]
  last := some { text := "\x7bh: f\x7d" }

/-- Five levels are enough for both ways to write the chain, and four for neither. -/
theorem sinosi_is_nested_si_sample :
    (parse 5 Chain.sample.withSinosi).errors = [] ∧
    (parse 5 Chain.sample.withBlocks).errors = [] ∧
    (parse 5 Chain.sample.withSinosi).program.erase =
      (parse 5 Chain.sample.withBlocks).program.erase ∧
    (parse 4 Chain.sample.withSinosi).errors ≠ [] ∧
    (parse 4 Chain.sample.withBlocks).errors ≠ [] := by
  have enough : (parse 5 Chain.sample.withSinosi).errors = [] := by decide +kernel
  have few : (parse 4 Chain.sample.withSinosi).errors ≠ [] := by decide +kernel
  obtain ⟨both, same⟩ := sinosi_is_nested_si 5 Chain.sample
  have neither := (sinosi_is_nested_si 4 Chain.sample).1
  exact ⟨enough, both.1 enough, same enough, few, fun clean => few (neither.2 clean)⟩

end Guion
