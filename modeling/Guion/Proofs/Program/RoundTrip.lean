import Guion.Proofs.Parser.Acceptance
import Guion.Proofs.Program.Printable
import Guion.Proofs.Token.Spelling

/-!
# Reading undoes rendering

The tokens of a rendering derive the program that was rendered, up to tokens, so the rendering is
read as that program (`parse_render`).

Each construct is rendered so that what follows it does not matter: a rendered expression derives an
application, which needs no parentheses anywhere (`Expression.Readable`).  Operators and assignments
are rendered in parentheses, whose inside is looked at once more where a conditional takes them for
its own (`Expression.Enclosed`).
-/

set_option autoImplicit false

namespace Guion

open Guion.Grammar

/-- Whatever the position, the text starts with tokens of a construct as `same` says, and `rest`
follows. -/
def Rereads {α : Type} (construct : List Token → α → List Token → Prop) (same : α → Prop)
    (cs rest : List Char) : Prop :=
  ∀ pos, ∃ a next, construct (tokensAt pos cs) a (tokensAt next rest) ∧ same a

/-- The text goes on with no word and no number before it. -/
def Loose (rest : List Char) : Prop := Apart isLetter rest ∧ Apart Number.isDigit rest

/-- Blanks, and the characters that are tokens by themselves. -/
def delimits (c : Char) : Bool := isSpace c || (Lexeme.single? c).isSome

theorem loose_cons {c : Char} {cs : List Char} (h : delimits c) : Loose (c :: cs) := by
  have plain : isLetter c = false ∧ Number.isDigit c = false := by
    rcases Bool.or_eq_true_iff.1 h with blank | symbol
    · refine ⟨Bool.eq_false_iff.2 fun letter => ?_, Bool.eq_false_iff.2 fun digit => ?_⟩
      · rw [(plain_of_class letter (by decide)).1] at blank
        cases blank
      · rw [(plain_of_class digit (by decide)).1] at blank
        cases blank
    · obtain ⟨kind, single⟩ := Option.isSome_iff_exists.1 symbol
      obtain ⟨-, digit, letter, -⟩ := plain_of_single? single
      exact ⟨letter, digit⟩
  constructor
  · rintro d ⟨⟩
    exact plain.1
  · rintro d ⟨⟩
    exact plain.2

/-- Nor does it go on with a point, which would make a number of an integer. -/
def Detached (rest : List Char) : Prop := Loose rest ∧ rest.head? ≠ some '.'

theorem detached_cons {c : Char} {cs : List Char} (h : delimits c && c ≠ '.') :
    Detached (c :: cs) := by
  simp only [Bool.and_eq_true, decide_eq_true_eq] at h
  refine ⟨loose_cons h.1, ?_⟩
  rintro ⟨⟩
  exact h.2 rfl

theorem detached_blank {c : Char} {cs : List Char} (blank : isSpace c) : Detached (c :: cs) := by
  refine ⟨loose_cons (by rw [delimits, blank, Bool.true_or]), ?_⟩
  rintro ⟨⟩
  cases blank

theorem detached_nil : Detached [] := ⟨⟨nofun, nofun⟩, nofun⟩

/-- The rendering of the expression is read as an application. -/
def Expression.Readable (e : Expression) : Prop :=
  ∀ rest, Loose rest → (e.isInteger → rest.head? ≠ some '.') →
    Rereads (Applied Unextended) (fun b => b.erase = e.erase) (e.render.toList ++ rest) rest

/-- The rendering of the expression is read as one in parentheses. -/
def Expression.Enclosed (e : Expression) : Prop :=
  ∀ rest pos, ∃ left right ts b next, tokensAt pos (e.render.toList ++ rest) = left :: ts ∧
    left.kind = .leftParen ∧ Expr Unextended ts b (right :: tokensAt next rest) ∧
    right.kind = .rightParen ∧ b.erase = e.erase

theorem Expression.Enclosed.readable {e : Expression} (h : e.Enclosed) : e.Readable := by
  intro rest _ _ pos
  obtain ⟨left, right, ts, b, next, front, opening, inside, closing, same⟩ := h rest pos
  rw [front]
  exact ⟨b, next, .primary (.grouped opening inside closing), same⟩

/-- Where an expression is expected, an application is one. -/
theorem Expression.Readable.expr {e : Expression} (h : e.Readable) {rest : List Char}
    (detached : Detached rest) :
    Rereads (Expr Unextended) (fun b => b.erase = e.erase) (e.render.toList ++ rest) rest := by
  intro pos
  obtain ⟨b, next, applied, same⟩ := h rest detached.1 (fun _ => detached.2) pos
  exact ⟨b, next, applied.expr, same⟩

/-! ## Names and literals -/

theorem Identifier.tokensAt_name {i : Identifier} (h : i.printable) {rest : List Char}
    (apart : Apart isLetter rest) (pos : Position) :
    tokensAt pos (i.name.toList ++ rest) =
      ⟨.identifier, i.name, pos⟩ :: tokensAt (pos.advance i.name.toList) rest := by
  obtain ⟨c, cs, spelled, -⟩ := i.startsText h
  simp only [Identifier.printable, Bool.and_eq_true, List.all_eq_true,
    Option.isNone_iff_eq_none] at h
  have word := tokensAt_word (by rw [spelled]; exact List.cons_ne_nil c cs) h.1.2 apart pos
  rw [h.2] at word
  exact word

theorem readable_identifier {name : Identifier} (h : name.printable) :
    (Expression.identifier name).Readable := by
  intro rest loose _ pos
  rw [Expression.render, name.tokensAt_name h loose.1]
  exact ⟨_, _, .primary (.name rfl), rfl⟩

theorem readable_integer {token : Token} {n : Nat} (small : n < Nat.pow 2 63) :
    (Expression.integer token n).Readable := by
  intro rest loose apart pos
  have value := ofDigits_toString n
  rw [Expression.render, tokensAt_digits (digitRun_toString n) loose.2 (apart rfl)]
  refine ⟨_, _, .primary (.literal (.integer rfl (by rw [value]; exact small))), ?_⟩
  simp only [Expression.erase, value]

theorem readable_boolean (token : Token) (value : Bool) :
    (Expression.boolean token value).Readable := by
  intro rest loose _ pos
  rw [Expression.render]
  cases value with
  | true =>
    rw [if_pos rfl, tokensAt_keyword "verdadero" rfl loose.1]
    exact ⟨_, _, .primary (.literal (.verdadero rfl)), rfl⟩
  | false =>
    rw [if_neg Bool.false_ne_true, tokensAt_keyword "falso" rfl loose.1]
    exact ⟨_, _, .primary (.literal (.falso rfl)), rfl⟩

theorem readable_string {token : Token} {value : String} (plain : '"' ∉ value.toList) :
    (Expression.string token value).Readable := by
  intro rest _ _ pos
  have spelled : (Expression.string token value).render.toList ++ rest =
      '"' :: (value.toList ++ '"' :: rest) := by
    simp
  rw [spelled, tokensAt_quoted plain]
  exact ⟨_, _, .primary (.literal (.string rfl)), rfl⟩

/-! ## Operators -/

/-- An operator between operands, which a blank follows. -/
theorem BinaryOp.tokensAt_render (op : BinaryOp) (rest : List Char) :
    ∃ kind text level, Level.operator? level kind = some op ∧ ∀ pos,
      tokensAt pos (op.render.toList ++ ' ' :: rest) =
        ⟨kind, text, pos⟩ :: tokensAt (pos.advance op.render.toList) (' ' :: rest) := by
  have alone {c : Char} {kind : Token.Kind} (single : Lexeme.single? c = some kind)
      (pos : Position) : tokensAt pos (c :: ' ' :: rest) =
        ⟨kind, String.ofList [c], pos⟩ :: tokensAt (pos.advance [c]) (' ' :: rest) :=
    tokensAt_symbol single (.inr (by simp)) (by simp) pos
  cases op with
  | add => exact ⟨.plus, _, .additive, rfl, alone rfl⟩
  | sub => exact ⟨.minus, _, .additive, rfl, alone rfl⟩
  | mul => exact ⟨.star, _, .multiplicative, rfl, alone rfl⟩
  | div => exact ⟨.slash, _, .multiplicative, rfl, alone rfl⟩
  | equal => exact ⟨.equal, _, .equality, rfl, tokensAt_pair rfl⟩
  | notEqual => exact ⟨.notEqual, _, .equality, rfl, tokensAt_pair rfl⟩
  | less => exact ⟨.less, _, .relational, rfl, alone rfl⟩
  | lessEqual => exact ⟨.lessEqual, _, .relational, rfl, tokensAt_pair rfl⟩
  | greater => exact ⟨.greater, _, .relational, rfl, alone rfl⟩
  | greaterEqual => exact ⟨.greaterEqual, _, .relational, rfl, tokensAt_pair rfl⟩

/-- An operator before its operand. -/
theorem UnaryOp.tokensAt_render (op : UnaryOp) {rest : List Char}
    (apart : rest.head? ≠ some '=') :
    ∃ kind text, unaryOperator? kind = some op ∧ ∀ pos, tokensAt pos (op.render.toList ++ rest) =
      ⟨kind, text, pos⟩ :: tokensAt (pos.advance op.render.toList) rest := by
  cases op with
  | not =>
    refine ⟨.bang, _, rfl, tokensAt_symbol rfl (.inr apart) fun comment => ?_⟩
    exact absurd comment.1 (by decide)
  | negate => exact ⟨.minus, _, rfl, fun pos => tokensAt_mark '-' rfl (by decide) pos rest⟩

/-- An application is an operand of every level. -/
theorem chain_of_applied {ts rest : List Token} {e : Expression} (level : Level)
    (h : Applied Unextended ts e rest) : Chain Unextended level ts e rest := by
  have stratum : At Unextended 7 ts e rest := h
  -- every level of operators contains the applications
  rw [← at_power]
  exact stratum.mono (by cases level <;> decide)

/-- Operators of a level are an expression. -/
theorem expr_of_chain {ts rest : List Token} {e : Expression} {level : Level}
    (h : Chain Unextended level ts e rest) : Expr Unextended ts e rest := by
  rw [← at_power] at h
  exact h.mono (Nat.zero_le _)

theorem enclosed_unary {token : Token} {op : UnaryOp} {operand : Expression}
    (printable : operand.printable) (h : operand.Readable) :
    (Expression.unary token op operand).Enclosed := by
  intro rest pos
  have spelled : (Expression.unary token op operand).render.toList ++ rest =
      '(' :: (op.render.toList ++ (operand.render.toList ++ ')' :: rest)) := by
    simp
  -- no rendering starts with an equals sign, which `!` would take for its own
  have apart : (operand.render.toList ++ ')' :: rest).head? ≠ some '=' := by
    obtain ⟨c, cs, first, starts⟩ := operand.startsText printable
    rw [first]
    rintro ⟨⟩
    cases starts
  obtain ⟨kind, text, operator, front⟩ := op.tokensAt_render apart
  rw [spelled, tokensAt_mark '(' rfl (by decide), front]
  obtain ⟨b, p, inside, same⟩ := h (')' :: rest) (loose_cons rfl) (fun _ => nofun)
    ((pos.advance ['(']).advance op.render.toList)
  rw [tokensAt_mark ')' rfl (by decide)] at inside
  refine ⟨_, _, _, .unary _ op b, _, rfl, rfl,
    expr_of_chain (.unary operator (.applied inside)), rfl, ?_⟩
  simp [same]

theorem enclosed_binary {token : Token} {op : BinaryOp} {left right : Expression}
    (first : left.Readable) (second : right.Readable) :
    (Expression.binary token op left right).Enclosed := by
  intro rest pos
  have spelled : (Expression.binary token op left right).render.toList ++ rest =
      '(' :: (left.render.toList ++ ' ' :: (op.render.toList ++ ' ' ::
        (right.render.toList ++ ')' :: rest))) := by
    simp
  rw [spelled, tokensAt_mark '(' rfl (by decide)]
  obtain ⟨kind, text, level, operator, front⟩ :=
    op.tokensAt_render (right.render.toList ++ ')' :: rest)
  obtain ⟨a, p, operand, same⟩ := first (' ' :: (op.render.toList ++ ' ' ::
    (right.render.toList ++ ')' :: rest))) (loose_cons rfl) (fun _ => nofun)
    (pos.advance ['('])
  rw [tokensAt_space rfl, front, tokensAt_space rfl] at operand
  obtain ⟨b, q, last, same'⟩ := second (')' :: rest) (loose_cons rfl) (fun _ => nofun)
    (((p.next ' ').advance op.render.toList).next ' ')
  rw [tokensAt_mark ')' rfl (by decide)] at last
  -- operands are applications, so both sides fit whatever the level is
  have whole := Chain.binary (chain_of_applied level operand) operator
    (chain_of_applied level.tighter last)
  refine ⟨_, _, _, .binary _ op a b, _, rfl, rfl, expr_of_chain whole, rfl, ?_⟩
  simp [same, same']

theorem enclosed_assign {token : Token} {target : Identifier} {value : Expression}
    (name : target.printable) (h : value.Readable) :
    (Expression.assign token target value).Enclosed := by
  intro rest pos
  have spelled : (Expression.assign token target value).render.toList ++ rest =
      '(' :: (target.name.toList ++ ' ' :: '=' :: ' ' :: (value.render.toList ++ ')' :: rest)) := by
    simp
  have apart : Apart isLetter (' ' :: '=' :: ' ' :: (value.render.toList ++ ')' :: rest)) :=
    (loose_cons rfl).1
  rw [spelled, tokensAt_mark '(' rfl (by decide), target.tokensAt_name name apart,
    tokensAt_space rfl, tokensAt_symbol rfl (.inr (by simp)) (by simp), tokensAt_space rfl]
  obtain ⟨b, p, inside, same⟩ := h.expr (detached_cons rfl : Detached (')' :: rest))
    (((((pos.advance ['(']).advance target.name.toList).next ' ').advance ['=']).next ' ')
  rw [tokensAt_mark ')' rfl (by decide)] at inside
  refine ⟨_, _, _, .assign _ (.ofToken _) b, _, rfl, rfl, .assign (.name rfl) rfl inside, rfl, ?_⟩
  simp only [Expression.erase, same]
  rfl

/-! ## Lists -/

/-- Renderings with commas between them are read as a list, if each is read before a comma and the
last before what follows the list. -/
theorem rereads_separated {α β : Type} {item : List Token → α → List Token → Prop}
    {render : α → String} {erase : α → β} {as : List α} {rest : List Char}
    (detached : Detached rest) (some_item : as ≠ []) (h : ∀ a ∈ as, ∀ tail, Detached tail →
      Rereads item (fun b => erase b = erase a) ((render a).toList ++ tail) tail) :
    Rereads (Separated item) (fun bs => bs.map erase = as.map erase)
      ((", ".intercalate (as.map render)).toList ++ rest) rest := by
  induction as with
  | nil => exact absurd rfl some_item
  | cons a as ih =>
    intro pos
    cases as with
    | nil =>
      rw [List.map_singleton, String.intercalate_singleton]
      obtain ⟨b, next, read, same⟩ := h a List.mem_cons_self rest detached pos
      exact ⟨[b], next, .one read, by simp [same]⟩
    | cons a' as =>
      have others : ∀ a'' ∈ a' :: as, ∀ tail, Detached tail →
          Rereads item (fun b => erase b = erase a'') ((render a'').toList ++ tail) tail :=
        fun a'' member => h a'' (List.mem_cons_of_mem a member)
      have spelled : (", ".intercalate ((a :: a' :: as).map render)).toList ++ rest =
          (render a).toList ++ ',' :: ' ' ::
            ((", ".intercalate ((a' :: as).map render)).toList ++ rest) := by
        simp [String.intercalate_cons_cons]
      obtain ⟨b, p, first, same⟩ := h a List.mem_cons_self (',' :: ' ' ::
        ((", ".intercalate ((a' :: as).map render)).toList ++ rest)) (detached_cons rfl) pos
      rw [tokensAt_mark ',' rfl (by decide), tokensAt_space rfl] at first
      obtain ⟨bs, next, more, same'⟩ := ih nofun others ((p.advance [',']).next ' ')
      rw [spelled]
      exact ⟨b :: bs, next, .more first rfl more, by simp [same, same']⟩

/-- The names of a parameter list in parentheses. -/
theorem rereads_parameters {names : List Identifier} (h : names.all Identifier.printable)
    (rest : List Char) :
    Rereads Parameters (fun found => found.map Identifier.erase = names.map Identifier.erase)
      ('(' :: ((Identifier.renderAll names).toList ++ ')' :: rest)) rest := by
  intro pos
  rw [tokensAt_mark '(' rfl (by decide)]
  by_cases empty : names = []
  · subst empty
    rw [Identifier.renderAll, List.map_nil, String.intercalate_nil, String.toList_empty,
      List.nil_append, tokensAt_mark ')' rfl (by decide)]
    exact ⟨[], _, .none rfl rfl, rfl⟩
  · have each : ∀ name ∈ names, ∀ tail, Detached tail →
        Rereads Name (fun found => found.erase = name.erase) (name.name.toList ++ tail) tail := by
      intro name member tail detached pos
      rw [name.tokensAt_name (List.all_eq_true.1 h name member) detached.1.1]
      exact ⟨_, _, .mk rfl, rfl⟩
    obtain ⟨found, next, read, same⟩ := rereads_separated
      (detached_cons rfl : Detached (')' :: rest)) empty each (pos.advance ['('])
    rw [tokensAt_mark ')' rfl (by decide)] at read
    exact ⟨found, _, .some rfl read rfl, same⟩

/-! ## Calls, members and objects -/

theorem readable_call {token : Token} {callee : Expression} {arguments : List Expression}
    (first : callee.Readable) (others : ∀ e ∈ arguments, e.Readable) :
    (Expression.call token callee arguments).Readable := by
  intro rest _ _ pos
  have spelled : (Expression.call token callee arguments).render.toList ++ rest =
      callee.render.toList ++ '(' ::
        ((", ".intercalate (arguments.map Expression.render)).toList ++ ')' :: rest) := by
    simp [Expression.renderAll_eq_map]
  obtain ⟨b, p, applied, same⟩ := first ('(' ::
    ((", ".intercalate (arguments.map Expression.render)).toList ++ ')' :: rest))
    (loose_cons rfl) (fun _ => nofun) pos
  rw [tokensAt_mark '(' rfl (by decide)] at applied
  rw [spelled]
  by_cases empty : arguments = []
  · subst empty
    rw [List.map_nil, String.intercalate_nil, String.toList_empty, List.nil_append,
      tokensAt_mark ')' rfl (by decide)] at applied
    refine ⟨_, _, .call applied rfl (.none rfl), ?_⟩
    simp [same, Expression.eraseAll]
  · have each : ∀ e ∈ arguments, ∀ tail, Detached tail →
        Rereads (Expr Unextended) (fun b => b.erase = e.erase) (e.render.toList ++ tail) tail :=
      fun e member tail detached => (others e member).expr detached
    obtain ⟨bs, q, values, same'⟩ := rereads_separated
      (detached_cons rfl : Detached (')' :: rest)) empty each (p.advance ['('])
    rw [tokensAt_mark ')' rfl (by decide)] at values
    refine ⟨_, _, .call applied rfl (.some values rfl), ?_⟩
    simp [same, Expression.eraseAll_eq_map, same']

theorem readable_index {token : Token} {target key : Expression} (first : target.Readable)
    (second : key.Readable) : (Expression.member token target key true).Readable := by
  intro rest _ _ pos
  have spelled : (Expression.member token target key true).render.toList ++ rest =
      target.render.toList ++ '[' :: (key.render.toList ++ ']' :: rest) := by
    simp
  obtain ⟨b, p, applied, same⟩ := first ('[' :: (key.render.toList ++ ']' :: rest))
    (loose_cons rfl) (fun _ => nofun) pos
  rw [tokensAt_mark '[' rfl (by decide)] at applied
  obtain ⟨k, q, inside, same'⟩ := second.expr (detached_cons rfl : Detached (']' :: rest))
    (p.advance ['['])
  rw [tokensAt_mark ']' rfl (by decide)] at inside
  rw [spelled]
  refine ⟨_, _, .index applied rfl inside rfl, ?_⟩
  simp [same, same']

theorem readable_property {token : Token} {target key : Expression} (first : target.Readable)
    (no_integer : target.isInteger = false) (h : key.printable) (word : key.isIdentifier) :
    (Expression.member token target key false).Readable := by
  intro rest loose _ pos
  obtain ⟨name, rfl⟩ := key.eq_identifier word
  have spelled : (Expression.member token target (.identifier name) false).render.toList ++ rest =
      target.render.toList ++ '.' :: (name.name.toList ++ rest) := by
    simp
  obtain ⟨b, p, applied, same⟩ := first ('.' :: (name.name.toList ++ rest))
    (loose_cons rfl) (fun integer => by rw [no_integer] at integer; cases integer) pos
  rw [tokensAt_mark '.' rfl (by decide), name.tokensAt_name h loose.1] at applied
  rw [spelled]
  refine ⟨_, _, .member applied rfl rfl, ?_⟩
  simp only [Expression.erase, same]
  rfl

/-- The rendering of the property is read as one. -/
def Property.Readable (p : Property) : Prop :=
  ∀ rest, Detached rest →
    Rereads (Entry Unextended) (fun q => q.erase = p.erase) (p.render.toList ++ rest) rest

theorem readable_entry {key : Identifier} {value : Option Expression} (name : key.printable)
    (h : ∀ e ∈ value, e.Readable) : (Property.mk key value).Readable := by
  intro rest detached pos
  cases value with
  | none =>
    have spelled : (Property.mk key none).render.toList ++ rest = key.name.toList ++ rest := by
      simp
    rw [spelled, key.tokensAt_name name detached.1.1]
    exact ⟨_, _, .key rfl, rfl⟩
  | some e =>
    have spelled : (Property.mk key (some e)).render.toList ++ rest =
        key.name.toList ++ ':' :: ' ' :: (e.render.toList ++ rest) := by
      simp
    have apart : Apart isLetter (':' :: ' ' :: (e.render.toList ++ rest)) :=
      (loose_cons rfl).1
    rw [spelled, key.tokensAt_name name apart, tokensAt_mark ':' rfl (by decide),
      tokensAt_space rfl]
    obtain ⟨v, next, read, same⟩ := (h e rfl).expr detached
      (((pos.advance key.name.toList).advance [':']).next ' ')
    refine ⟨_, _, .value rfl rfl read, ?_⟩
    simp only [Property.erase, Expression.eraseOption, same]
    rfl

theorem readable_object {token : Token} {properties : List Property}
    (h : ∀ p ∈ properties, p.Readable) : (Expression.object token properties).Readable := by
  intro rest _ _ pos
  have spelled : (Expression.object token properties).render.toList ++ rest =
      '\x7b' :: ((", ".intercalate (properties.map Property.render)).toList ++ '\x7d' :: rest) := by
    simp [Property.renderAll_eq_map]
  rw [spelled, tokensAt_mark '\x7b' rfl (by decide)]
  by_cases empty : properties = []
  · subst empty
    rw [List.map_nil, String.intercalate_nil, String.toList_empty, List.nil_append,
      tokensAt_mark '\x7d' rfl (by decide)]
    exact ⟨_, _, .primary (.object rfl (.none rfl)), rfl⟩
  · obtain ⟨ps, next, entries, same⟩ := rereads_separated
      (detached_cons rfl : Detached ('\x7d' :: rest)) empty h (pos.advance ['\x7b'])
    rw [tokensAt_mark '\x7d' rfl (by decide)] at entries
    refine ⟨_, _, .primary (.object rfl (.some entries rfl)), ?_⟩
    simp only [Expression.erase, Property.eraseAll_eq_map, same]

/-! ## Blocks, functions and conditionals -/

/-- The rendering of the block is read as one. -/
def Block.Readable (b : Block) : Prop :=
  ∀ rest, Rereads (Body Unextended) (fun found => found.erase = b.erase)
    (b.render.toList ++ rest) rest

theorem readable_function {token : Token} {parameters : List Identifier} {body : Block}
    (names : parameters.all Identifier.printable) (h : body.Readable) :
    (Expression.function token parameters body).Readable := by
  intro rest _ _ pos
  have spelled : (Expression.function token parameters body).render.toList ++ rest =
      "func".toList ++ '(' :: ((Identifier.renderAll parameters).toList ++ ')' :: ' ' ::
        (body.render.toList ++ rest)) := by
    simp
  rw [spelled, tokensAt_keyword "func" rfl (loose_cons rfl).1]
  obtain ⟨found, p, list, same⟩ := rereads_parameters names (' ' :: (body.render.toList ++ rest))
    (pos.advance "func".toList)
  rw [tokensAt_space rfl p] at list
  obtain ⟨b, next, block, same'⟩ := h rest (p.next ' ')
  refine ⟨_, _, .primary (.function rfl list block), ?_⟩
  simp [same, same']

theorem readable_alternative {alternative : Option Block} (h : ∀ b ∈ alternative, b.Readable)
    (rest : List Char) :
    Rereads (Alternative Unextended)
      (fun found => Block.eraseOption found = Block.eraseOption alternative)
      ((Block.renderAlternative alternative).toList ++ rest) rest := by
  intro pos
  cases alternative with
  | none => exact ⟨none, pos, by simpa using .none, rfl⟩
  | some b =>
    have spelled : (Block.renderAlternative (some b)).toList ++ rest =
        ' ' :: ("sino".toList ++ ' ' :: (b.render.toList ++ rest)) := by
      simp
    rw [spelled, tokensAt_space rfl,
      tokensAt_keyword "sino" rfl (loose_cons rfl).1,
      tokensAt_space rfl]
    obtain ⟨found, next, block, same⟩ := h b rfl rest
      (((pos.next ' ').advance "sino".toList).next ' ')
    refine ⟨_, _, .sino rfl block, ?_⟩
    simp [same]

theorem readable_conditional {token : Token} {condition : Expression} {consequence : Block}
    {alternative : Option Block} (first : condition.Enclosed) (second : consequence.Readable)
    (third : ∀ b ∈ alternative, b.Readable) :
    (Expression.conditional token condition consequence alternative).Readable := by
  intro rest _ _ pos
  have spelled :
      (Expression.conditional token condition consequence alternative).render.toList ++ rest =
        "si".toList ++ ' ' :: (condition.render.toList ++ ' ' :: (consequence.render.toList ++
          ((Block.renderAlternative alternative).toList ++ rest))) := by
    simp
  rw [spelled, tokensAt_keyword "si" rfl (loose_cons rfl).1,
    tokensAt_space rfl]
  obtain ⟨left, right, ts, c, p, front, opening, inside, closing, same⟩ := first
    (' ' :: (consequence.render.toList ++
      ((Block.renderAlternative alternative).toList ++ rest)))
    ((pos.advance "si".toList).next ' ')
  rw [tokensAt_space rfl p] at inside
  obtain ⟨b, q, block, same'⟩ := second ((Block.renderAlternative alternative).toList ++ rest)
    (p.next ' ')
  obtain ⟨other, next, branch, same''⟩ := readable_alternative third rest q
  rw [front]
  refine ⟨_, _, .primary (.conditional rfl (.mk opening inside closing block branch)), ?_⟩
  simp [same, same', same'']

/-! ## Statements -/

/-- The rendering of the statement is read as one, if what follows an expression does not extend
it. -/
def Statement.Readable (s : Statement) : Prop :=
  ∀ rest, Detached rest → (s.isExpression → ∀ next, Unextended (tokensAt next rest)) →
    Rereads (Clause Unextended) (fun found => found.erase = s.erase) (s.render.toList ++ rest) rest

/-- The word that introduces a declaration. -/
theorem tokensAt_introducer (constant : Bool) (rest : List Char) (pos : Position) :
    ∃ t next, tokensAt pos ((if constant then "let" else "var").toList ++ ' ' :: rest) =
      t :: tokensAt next rest ∧ t.kind = if constant then .constant else .var := by
  cases constant with
  | true =>
    rw [if_pos rfl, tokensAt_keyword "let" rfl (loose_cons rfl).1,
      tokensAt_space rfl]
    exact ⟨_, _, rfl, rfl⟩
  | false =>
    rw [if_neg Bool.false_ne_true,
      tokensAt_keyword "var" rfl (loose_cons rfl).1,
      tokensAt_space rfl]
    exact ⟨_, _, rfl, rfl⟩

theorem readable_declaration {token : Token} {name : Identifier} {value : Option Expression}
    {constant : Bool} (introduced : token.text = if constant then "let" else "var")
    (printable : name.printable) (initialized : value.isSome || !constant)
    (h : ∀ e ∈ value, e.Readable) : (Statement.declaration token name value constant).Readable := by
  intro rest _ _ pos
  cases value with
  | none =>
    have unfixed : constant = false := by simpa using initialized
    have spelled : (Statement.declaration token name none constant).render.toList ++ rest =
        (if constant then "let" else "var").toList ++ ' ' :: (name.name.toList ++ ';' :: rest) := by
      simp [introduced]
    obtain ⟨t, p, front, kind⟩ := tokensAt_introducer constant (name.name.toList ++ ';' :: rest) pos
    rw [spelled, front, name.tokensAt_name printable (loose_cons rfl).1,
      tokensAt_mark ';' rfl (by decide)]
    subst unfixed
    exact ⟨_, _, .uninitialized kind rfl (.semicolon rfl), rfl⟩
  | some e =>
    have spelled : (Statement.declaration token name (some e) constant).render.toList ++ rest =
        (if constant then "let" else "var").toList ++ ' ' :: (name.name.toList ++ ' ' :: '=' ::
          ' ' :: (e.render.toList ++ ';' :: rest)) := by
      simp [introduced]
    obtain ⟨t, p, front, kind⟩ := tokensAt_introducer constant
      (name.name.toList ++ ' ' :: '=' :: ' ' :: (e.render.toList ++ ';' :: rest)) pos
    rw [spelled, front, name.tokensAt_name printable (loose_cons rfl).1, tokensAt_space rfl,
      tokensAt_symbol rfl (.inr (by simp)) (by simp), tokensAt_space rfl]
    obtain ⟨v, q, read, same⟩ := (h e rfl).expr (detached_cons rfl : Detached (';' :: rest))
      ((((p.advance name.name.toList).next ' ').advance ['=']).next ' ')
    rw [tokensAt_mark ';' rfl (by decide)] at read
    -- the token that is read is new; only its kind has to agree with the flag
    have declares : t.kind = .var ∨ t.kind = .constant := by
      rw [kind]
      cases constant <;> simp
    have flag : decide (t.kind = .constant) = constant := by
      rw [kind]
      cases constant <;> rfl
    refine ⟨_, _, .declaration declares rfl rfl read (.semicolon rfl), ?_⟩
    simp only [Statement.erase, Expression.eraseOption, same, flag]
    rfl

theorem readable_result {token : Token} {value : Option Expression}
    (h : ∀ e ∈ value, e.Readable) : (Statement.result token value).Readable := by
  intro rest _ _ pos
  cases value with
  | none =>
    have spelled : (Statement.result token none).render.toList ++ rest =
        "regresa".toList ++ ';' :: rest := by
      simp
    rw [spelled, tokensAt_keyword "regresa" rfl (loose_cons rfl).1,
      tokensAt_mark ';' rfl (by decide)]
    have ended {t : Token} {ts : List Token} (kind : t.kind = .semicolon) : AtEnd (t :: ts) := by
      rintro u ⟨⟩
      exact .inl kind
    exact ⟨_, _, .bare rfl (ended rfl) (.semicolon rfl), rfl⟩
  | some e =>
    have spelled : (Statement.result token (some e)).render.toList ++ rest =
        "regresa".toList ++ ' ' :: (e.render.toList ++ ';' :: rest) := by
      simp
    rw [spelled, tokensAt_keyword "regresa" rfl (loose_cons rfl).1,
      tokensAt_space rfl]
    obtain ⟨v, q, read, same⟩ := (h e rfl).expr (detached_cons rfl : Detached (';' :: rest))
      ((pos.advance "regresa".toList).next ' ')
    rw [tokensAt_mark ';' rfl (by decide)] at read
    refine ⟨_, _, .result rfl read (.semicolon rfl), ?_⟩
    simp [same]

theorem readable_expression {token : Token} {value : Expression} (h : value.Readable) :
    (Statement.expression token value).Readable := by
  intro rest detached unextended pos
  obtain ⟨e, next, read, same⟩ := h.expr detached pos
  rw [Statement.render]
  -- the statement keeps the first token of its expression, so there has to be one
  cases front : tokensAt pos (value.render.toList ++ rest) with
  | nil =>
    rw [front] at read
    cases read.starts
  | cons t ts =>
    rw [front] at read
    refine ⟨_, _, .expression read (.nothing (unextended rfl next)), ?_⟩
    simp [same]

theorem readable_definition {token : Token} {name : Identifier} {parameters : List Identifier}
    {body : Block} (printable : name.printable) (names : parameters.all Identifier.printable)
    (h : body.Readable) : (Statement.function token name parameters body).Readable := by
  intro rest _ _ pos
  have spelled : (Statement.function token name parameters body).render.toList ++ rest =
      "func".toList ++ ' ' :: (name.name.toList ++ '(' ::
        ((Identifier.renderAll parameters).toList ++ ')' :: ' ' ::
          (body.render.toList ++ rest))) := by
    simp
  rw [spelled, tokensAt_keyword "func" rfl (loose_cons rfl).1,
    tokensAt_space rfl, name.tokensAt_name printable (loose_cons rfl).1]
  obtain ⟨found, p, list, same⟩ := rereads_parameters names (' ' :: (body.render.toList ++ rest))
    (((pos.advance "func".toList).next ' ').advance name.name.toList)
  rw [tokensAt_space rfl p] at list
  obtain ⟨b, next, block, same'⟩ := h rest (p.next ' ')
  refine ⟨_, _, .function rfl rfl list block (.nothing trivial), ?_⟩
  simp only [Statement.erase, same, same']
  rfl

/-! ## Items -/

/-- A lexeme is an opening parenthesis or a minus sign only if it starts with that character. -/
theorem Lexeme.kind_first {c : Char} {cs : List Char} (starts : startsText c) (other : c ≠ '(') :
    (first c cs).kind ≠ .leftParen ∧ (first c cs).kind ≠ .minus := by
  rw [first]
  split
  · rw [number]
    repeat' split
    all_goals simp
  split
  · rw [word]
    cases reserved : Token.keyword? (String.ofList (c :: cs.takeWhile isLetter)) with
    | none => simp
    | some kind =>
      have every : ∀ entry ∈ Token.keywords, entry.2 ≠ .leftParen ∧ entry.2 ≠ .minus := by decide
      exact every (_, kind) (mem_keywords reserved)
  split
  · rw [quoted]
    split <;> simp
  · have brace : c = '\x7b' := by
      simp_all [startsText]
    subst brace
    simp [symbol, withEquals?, single?]

/-- A text that starts as a rendering does, other than with a parenthesis, does not extend the
expression before it. -/
theorem unextended_of_startsText {c : Char} {cs : List Char} (starts : startsText c)
    (other : c ≠ '(') (pos : Position) : Unextended (tokensAt pos (c :: cs)) := by
  have plain : isSpace c = false ∧ c ≠ '/' := plain_of_class starts (by decide)
  rw [tokensAt_first plain.1 (fun comment => plain.2 comment.1)]
  rintro t ⟨⟩
  exact Lexeme.kind_first starts other

/-- A statement that may follow an expression, with what comes after it, does not extend the
expression. -/
theorem Statement.unextended {s : Statement} (printable : s.printable) {ss : List Statement}
    (apart : Statement.startApart (s :: ss)) (separator : String) (rest : List Char)
    (pos : Position) : Unextended (tokensAt pos
      ((separator.intercalate ((s :: ss).map Statement.render)).toList ++ rest)) := by
  obtain ⟨c, cs, spelled, starts⟩ := s.startsText printable
  -- the joined text starts with the rendering of the first statement
  have front : separator.intercalate (s.render :: ss.map Statement.render) =
      s.render ++ separator.intercalate ("" :: ss.map Statement.render) := by
    rw [← String.intercalate_cons_append, String.append_empty]
  have other : c ≠ '(' := by
    rintro rfl
    simp [Statement.startApart, spelled] at apart
  rw [List.map_cons, front, String.toList_append, spelled]
  exact unextended_of_startsText starts other pos

/-- Statements with blanks between them are read as items, up to a text that does not extend the
last of them. -/
theorem rereads_items (separator : String) {c : Char} (single : separator.toList = [c])
    (blank : isSpace c) {ss : List Statement} (printable : Statement.printableAll ss)
    (h : ∀ s ∈ ss, s.Readable) {rest : List Char} (detached : Detached rest)
    (last : ∀ next, Unextended (tokensAt next rest)) :
    Rereads (Items Unextended) (fun found => Statement.eraseAll found = Statement.eraseAll ss)
      ((separator.intercalate (ss.map Statement.render)).toList ++ rest) rest := by
  induction ss with
  | nil =>
    intro pos
    exact ⟨[], pos, by simpa using .done, rfl⟩
  | cons s ss ih =>
    intro pos
    simp only [Statement.printableAll, Bool.and_eq_true] at printable
    obtain ⟨⟨_, separate⟩, others⟩ := printable
    cases ss with
    | nil =>
      rw [List.map_singleton, String.intercalate_singleton]
      obtain ⟨t, next, read, same⟩ := h s List.mem_cons_self rest detached (fun _ => last) pos
      refine ⟨[t], next, .statement read .done, ?_⟩
      simp [same]
    | cons s' ss =>
      have spelled : (separator.intercalate ((s :: s' :: ss).map Statement.render)).toList ++ rest =
          s.render.toList ++
            c :: ((separator.intercalate ((s' :: ss).map Statement.render)).toList ++ rest) := by
        simp [String.intercalate_cons_cons, single]
      -- an expression goes on as long as it can, so the next statement must not continue it
      have unextended (expression : s.isExpression) (next : Position) : Unextended (tokensAt next
          (c :: ((separator.intercalate ((s' :: ss).map Statement.render)).toList ++ rest))) := by
        rw [expression, Bool.not_true, Bool.false_or] at separate
        rw [tokensAt_space blank]
        simp only [Statement.printableAll, Bool.and_eq_true] at others
        exact Statement.unextended others.1.1 separate separator rest _
      obtain ⟨t, p, first, same⟩ := h s List.mem_cons_self _ (detached_blank blank) unextended pos
      rw [tokensAt_space blank] at first
      obtain ⟨ts, next, more, same'⟩ := ih others
        (fun s'' member => h s'' (List.mem_cons_of_mem s member)) (p.next c)
      rw [spelled]
      refine ⟨t :: ts, next, .statement first more, ?_⟩
      simp [same, same']

theorem readable_block {token : Token} {ss : List Statement} (printable : Statement.printableAll ss)
    (h : ∀ s ∈ ss, s.Readable) : (Block.mk token ss).Readable := by
  intro rest pos
  cases ss with
  | nil =>
    have spelled : (Block.mk token []).render.toList ++ rest = '\x7b' :: ' ' :: '\x7d' :: rest := by
      simp
    rw [spelled, tokensAt_mark '\x7b' rfl (by decide), tokensAt_space rfl,
      tokensAt_mark '\x7d' rfl (by decide)]
    exact ⟨_, _, .mk rfl .done rfl, rfl⟩
  | cons s ss =>
    have spelled : (Block.mk token (s :: ss)).render.toList ++ rest =
        '\x7b' :: ' ' :: ((" ".intercalate ((s :: ss).map Statement.render)).toList ++
          ' ' :: '\x7d' :: rest) := by
      simp [Statement.renderAll_eq_map]
    -- the closing brace continues no expression
    have last (next : Position) : Unextended (tokensAt next (' ' :: '\x7d' :: rest)) := by
      rw [tokensAt_space rfl, tokensAt_mark '\x7d' rfl (by decide)]
      rintro t ⟨⟩
      exact ⟨nofun, nofun⟩
    rw [spelled, tokensAt_mark '\x7b' rfl (by decide), tokensAt_space rfl]
    obtain ⟨found, p, items, same⟩ := rereads_items " " (c := ' ') (by decide) rfl printable h
      (detached_cons rfl) last ((pos.advance ['\x7b']).next ' ')
    rw [tokensAt_space rfl p, tokensAt_mark '\x7d' rfl (by decide)] at items
    refine ⟨_, _, .mk rfl items rfl, ?_⟩
    simp [same]

/-! ## Programs -/

mutual

theorem Expression.readable : ∀ {e : Expression}, e.printable → e.Readable
  | .identifier name, h => readable_identifier h
  | .integer _ value, h => by
    simp only [Expression.printable, Bool.and_eq_true, decide_eq_true_eq] at h
    obtain ⟨n, rfl⟩ := Int.eq_ofNat_of_zero_le h.1
    exact readable_integer (by omega)
  | .boolean token value, _ => readable_boolean token value
  | .string _ value, h => by
    simp only [Expression.printable, List.all_eq_true, decide_eq_true_eq] at h
    exact readable_string fun quote => h '"' quote rfl
  | .unary _ op operand, h => by
    rw [Expression.printable] at h
    exact (enclosed_unary h (operand.readable h)).readable
  | .binary _ op left right, h => by
    simp only [Expression.printable, Bool.and_eq_true] at h
    exact (enclosed_binary (left.readable h.1) (right.readable h.2)).readable
  | .assign _ target value, h => by
    simp only [Expression.printable, Bool.and_eq_true] at h
    exact (enclosed_assign h.1 (value.readable h.2)).readable
  | .conditional _ condition consequence alternative, h => by
    simp only [Expression.printable, Bool.and_eq_true] at h
    obtain ⟨⟨⟨enclosed, first⟩, second⟩, third⟩ := h
    exact readable_conditional (condition.enclosed first enclosed) (consequence.readable second)
      (Block.readableOption third)
  | .function _ parameters body, h => by
    simp only [Expression.printable, Bool.and_eq_true] at h
    exact readable_function h.1 (body.readable h.2)
  | .call _ callee arguments, h => by
    simp only [Expression.printable, Bool.and_eq_true] at h
    exact readable_call (callee.readable h.1) (Expression.readableAll h.2)
  | .member _ target key true, h => by
    simp only [Expression.printable, Bool.and_eq_true] at h
    exact readable_index (target.readable h.1.1) (key.readable h.1.2)
  | .member _ target key false, h => by
    simp only [Expression.printable, Bool.and_eq_true, Bool.false_or, Bool.not_eq_true'] at h
    exact readable_property (target.readable h.1.1) h.2.1 h.1.2 h.2.2
  | .object _ properties, h => readable_object (Property.readableAll h)

/-- What is rendered in parentheses is read as an expression in parentheses. -/
theorem Expression.enclosed (e : Expression) (h : e.printable) (enclosed : e.parenthesized) :
    e.Enclosed := by
  cases e
  case unary _ op operand =>
    rw [Expression.printable] at h
    exact enclosed_unary h (operand.readable h)
  case binary _ op left right =>
    simp only [Expression.printable, Bool.and_eq_true] at h
    exact enclosed_binary (left.readable h.1) (right.readable h.2)
  case assign _ target value =>
    simp only [Expression.printable, Bool.and_eq_true] at h
    exact enclosed_assign h.1 (value.readable h.2)
  all_goals cases enclosed

theorem Expression.readableAll : ∀ {es : List Expression}, Expression.printableAll es →
    ∀ e ∈ es, e.Readable
  | [], _ => nofun
  | e :: es, h => by
    simp only [Expression.printableAll, Bool.and_eq_true] at h
    exact List.forall_mem_cons.2 ⟨e.readable h.1, Expression.readableAll h.2⟩

theorem Expression.readableOption : ∀ {value : Option Expression},
    Expression.printableOption value → ∀ e ∈ value, e.Readable
  | none, _ => nofun
  | some e, h => by
    rintro e' ⟨⟩
    exact e.readable h

theorem Property.readable : ∀ {p : Property}, p.printable → p.Readable
  | .mk key value, h => by
    simp only [Property.printable, Bool.and_eq_true] at h
    exact readable_entry h.1 (Expression.readableOption h.2)

theorem Property.readableAll : ∀ {ps : List Property}, Property.printableAll ps →
    ∀ p ∈ ps, p.Readable
  | [], _ => nofun
  | p :: ps, h => by
    simp only [Property.printableAll, Bool.and_eq_true] at h
    exact List.forall_mem_cons.2 ⟨p.readable h.1, Property.readableAll h.2⟩

theorem Block.readable : ∀ {b : Block}, b.printable → b.Readable
  | .mk _ _, h => readable_block h (Statement.readableAll h)

theorem Block.readableOption : ∀ {b : Option Block}, Block.printableOption b →
    ∀ b' ∈ b, b'.Readable
  | none, _ => nofun
  | some b, h => by
    rintro b' ⟨⟩
    exact b.readable h

theorem Statement.readable : ∀ {s : Statement}, s.printable → s.Readable
  | .declaration _ name value constant, h => by
    simp only [Statement.printable, Bool.and_eq_true, decide_eq_true_eq] at h
    obtain ⟨⟨⟨introduced, printable⟩, initialized⟩, h⟩ := h
    exact readable_declaration introduced printable initialized (Expression.readableOption h)
  | .result _ value, h => readable_result (Expression.readableOption h)
  | .expression _ value, h => readable_expression (value.readable h)
  | .function _ name parameters body, h => by
    simp only [Statement.printable, Bool.and_eq_true] at h
    exact readable_definition h.1.1 h.1.2 (body.readable h.2)

theorem Statement.readableAll : ∀ {ss : List Statement}, Statement.printableAll ss →
    ∀ s ∈ ss, s.Readable
  | [], _ => nofun
  | s :: ss, h => by
    simp only [Statement.printableAll, Bool.and_eq_true] at h
    exact List.forall_mem_cons.2 ⟨s.readable h.1.1, Statement.readableAll h.2⟩

end

/-- The tokens of the rendering of a printable program derive it, up to tokens. -/
theorem Program.derives_render {p : Program} (h : p.printable) :
    ∃ q : Program, Derives Unextended (scan p.render).tokens q ∧ q.erase = p.erase := by
  have finished : ∀ next, tokensAt next [] = [] := Cursor.scan_nil
  have last (next : Position) : Unextended (tokensAt next []) := by
    rw [finished]
    nofun
  obtain ⟨q, next, items, same⟩ := rereads_items "\n" (c := '\n') (by decide) rfl h
    (Statement.readableAll h) detached_nil last .start
  rw [List.append_nil, finished, ← Statement.renderAll_eq_map, ← Program.render,
    tokensAt_start] at items
  exact ⟨q, items, same⟩

/-- The rendering of a printable program is read as that program, up to tokens, without errors. -/
theorem parse_render (p : Program) (h : p.printable) :
    ∃ enough, ∀ limit ≥ enough,
      (parse limit p.render).errors = [] ∧ (parse limit p.render).program.erase = p.erase := by
  obtain ⟨q, derived, same⟩ := p.derives_render h
  refine ⟨(scan p.render).tokens.length, fun limit room => ?_⟩
  rw [parse_of_derives derived room]
  exact ⟨rfl, same⟩

/-- `var x = 1;`, a function of two parameters, and a conditional that calls it or looks into an
object. -/
def showcase : Program :=
  let name (text : String) : Identifier := ⟨default, text⟩
  let use (text : String) : Expression := .identifier (name text)
  [.declaration ⟨.var, "var", default⟩ (name "x") (some (.integer default 1)) false,
    .function default (name "suma") [name "a", name "b"]
      (.mk default [.result default (some (.binary default .add (use "a") (use "b")))]),
    .expression default (.conditional default
      (.unary default .not (.binary default .less (use "x") (.integer default 2)))
      (.mk default [.expression default
        (.call default (use "suma") [use "x", .string default "dos"])])
      (some (.mk default [.expression default (.member default
        (.object default [.mk (name "clave") (some (use "x"))]) (.string default "clave") true)])))]

theorem parse_render_showcase : showcase.printable ∧ ∃ enough, ∀ limit ≥ enough,
    (parse limit showcase.render).errors = [] ∧
      (parse limit showcase.render).program.erase = showcase.erase :=
  ⟨by decide +kernel, parse_render showcase (by decide +kernel)⟩

end Guion
