import Guion.Program.Render
import Guion.Proofs.Program.Erasure
import Guion.Proofs.Token.Lexed

/-!
# Printable programs

The programs whose rendering is source text for them.  They have the shape that reading gives a
program, and avoid the few renderings that read differently:

- names are runs of letters other than reserved words, integers have 63 bits, strings have no quote
  in them, and there is no null and no float;
- a declaration is introduced by `var`, or by `let` where it is constant, and then has a value;
- the property after a point is a name, and no integer stands before a point;
- the condition of a conditional is rendered in parentheses;
- after an expression that is a statement, no statement starts with a parenthesis.
-/

set_option autoImplicit false

namespace Guion

attribute [simp] Expression.render Expression.renderAfter Property.render Block.render
  Block.renderAlternative Statement.render

/-- A run of letters that is no reserved word. -/
def Identifier.printable (i : Identifier) : Bool :=
  i.name ≠ "" && i.name.toList.all isLetter && (Token.keyword? i.name).isNone

/-- The expressions that are rendered in parentheses. -/
def Expression.parenthesized : Expression → Bool
  | .unary .. | .binary .. | .assign .. => true
  | _ => false

def Expression.isInteger : Expression → Bool
  | .integer .. => true
  | _ => false

def Expression.isIdentifier : Expression → Bool
  | .identifier _ => true
  | _ => false

theorem Expression.eq_identifier {e : Expression} (h : e.isIdentifier) :
    ∃ name, e = .identifier name := by
  cases e
  case identifier name => exact ⟨name, rfl⟩
  all_goals cases h

def Statement.isExpression : Statement → Bool
  | .expression .. => true
  | _ => false

/-- The rendering of the first of these statements does not start with a parenthesis. -/
def Statement.startApart : List Statement → Bool
  | [] => true
  | s :: _ => s.render.toList.head? ≠ some '('

mutual

/-- The rendering of the expression is source text for it. -/
def Expression.printable : Expression → Bool
  | .identifier name => name.printable
  | .integer _ value => 0 ≤ value && value < Nat.pow 2 63
  | .float _ _ => false
  | .boolean _ _ => true
  | .string _ value => value.toList.all (· ≠ '"')
  | .null _ => false
  | .unary _ _ operand => operand.printable
  | .binary _ _ left right => left.printable && right.printable
  | .assign _ target value => target.printable && value.printable
  | .conditional _ condition consequence alternative =>
    condition.parenthesized && condition.printable && consequence.printable &&
      Block.printableOption alternative
  | .function _ parameters body => parameters.all Identifier.printable && body.printable
  | .call _ callee arguments => callee.printable && Expression.printableAll arguments
  | .member _ object property computed =>
    object.printable && property.printable &&
      (computed || !object.isInteger && property.isIdentifier)
  | .object _ properties => Property.printableAll properties

def Expression.printableAll : List Expression → Bool
  | [] => true
  | e :: es => e.printable && Expression.printableAll es

def Expression.printableOption : Option Expression → Bool
  | none => true
  | some e => e.printable

/-- The rendering of the property is source text for it. -/
def Property.printable : Property → Bool
  | .mk key value => key.printable && Expression.printableOption value

def Property.printableAll : List Property → Bool
  | [] => true
  | p :: ps => p.printable && Property.printableAll ps

/-- The rendering of the block is source text for it. -/
def Block.printable : Block → Bool
  | .mk _ statements => Statement.printableAll statements

def Block.printableOption : Option Block → Bool
  | none => true
  | some block => block.printable

/-- The rendering of the statement is source text for it. -/
def Statement.printable : Statement → Bool
  | .declaration token name value constant =>
    token.text = (if constant then "let" else "var") && name.printable &&
      (value.isSome || !constant) && Expression.printableOption value
  | .result _ value => Expression.printableOption value
  | .expression _ value => value.printable
  | .function _ name parameters body =>
    name.printable && parameters.all Identifier.printable && body.printable

/-- The rendering of the statements, one after the other, is source text for them. -/
def Statement.printableAll : List Statement → Bool
  | [] => true
  | s :: ss =>
    s.printable && (!s.isExpression || Statement.startApart ss) && Statement.printableAll ss

end

/-- The rendering of the program is source text for it. -/
def Program.printable (program : Program) : Bool := Statement.printableAll program

/-! ## Lists -/

theorem Expression.renderAll_eq_map (es : List Expression) :
    Expression.renderAll es = es.map Expression.render := by
  induction es with
  | nil => rfl
  | cons e es ih => rw [Expression.renderAll, List.map_cons, ih]

theorem Expression.eraseAll_eq_map (es : List Expression) :
    Expression.eraseAll es = es.map Expression.erase := by
  induction es with
  | nil => rfl
  | cons e es ih => rw [Expression.eraseAll, List.map_cons, ih]

theorem Property.renderAll_eq_map (ps : List Property) :
    Property.renderAll ps = ps.map Property.render := by
  induction ps with
  | nil => rfl
  | cons p ps ih => rw [Property.renderAll, List.map_cons, ih]

theorem Property.eraseAll_eq_map (ps : List Property) :
    Property.eraseAll ps = ps.map Property.erase := by
  induction ps with
  | nil => rfl
  | cons p ps ih => rw [Property.eraseAll, List.map_cons, ih]

theorem Statement.renderAll_eq_map (ss : List Statement) :
    Statement.renderAll ss = ss.map Statement.render := by
  induction ss with
  | nil => rfl
  | cons s ss ih => rw [Statement.renderAll, List.map_cons, ih]

/-! ## First characters -/

/-- The characters that a rendering starts with. -/
def startsText (c : Char) : Bool :=
  isLetter c || Number.isDigit c || c = '"' || c = '(' || c = '\x7b'

/-- The text starts as a rendering does. -/
def StartsText (s : String) : Prop := ∃ c cs, s.toList = c :: cs ∧ startsText c

theorem StartsText.append {s : String} (h : StartsText s) (t : String) : StartsText (s ++ t) := by
  obtain ⟨c, cs, spelled, starts⟩ := h
  exact ⟨c, cs ++ t.toList, by rw [String.toList_append, spelled]; rfl, starts⟩

theorem Identifier.startsText {i : Identifier} (h : i.printable) : StartsText i.name := by
  simp only [Identifier.printable, Bool.and_eq_true, decide_eq_true_eq, List.all_eq_true] at h
  obtain ⟨⟨nonempty, letters⟩, -⟩ := h
  have some_letter : i.name.toList ≠ [] := fun none => nonempty (String.toList_eq_nil_iff.1 none)
  obtain ⟨c, cs, spelled⟩ := List.exists_cons_of_ne_nil some_letter
  have letter := letters c (spelled ▸ List.mem_cons_self)
  exact ⟨c, cs, spelled, by simp [Guion.startsText, letter]⟩

/-- A natural number is rendered as its digits. -/
theorem digitRun_toString (n : Nat) : DigitRun (toString (n : Int)).toList := by
  have digits : (toString (n : Int)).toList = Nat.toDigits 10 n := Nat.toList_repr
  rw [digits]
  refine ⟨Nat.toDigits_ne_nil, List.all_eq_true.2 fun c member => ?_⟩
  exact Nat.isDigit_of_mem_toDigits (by decide) (by decide) member

theorem ofDigits_toString (n : Nat) : Number.ofDigits (toString (n : Int)).toList = n := by
  have digits : (toString (n : Int)).toList = Nat.toDigits 10 n := Nat.toList_repr
  rw [digits]
  exact Nat.ofDigitChars_ten_toDigits

theorem Expression.startsText : ∀ {e : Expression}, e.printable → StartsText e.render
  | .identifier name, h => by
    rw [Expression.render]
    exact name.startsText h
  | .integer _ value, h => by
    simp only [Expression.printable, Bool.and_eq_true, decide_eq_true_eq] at h
    obtain ⟨n, rfl⟩ := Int.eq_ofNat_of_zero_le h.1
    obtain ⟨some_digit, digits⟩ := digitRun_toString n
    obtain ⟨c, cs, spelled⟩ := List.exists_cons_of_ne_nil some_digit
    rw [spelled, List.all_cons, Bool.and_eq_true] at digits
    rw [Expression.render]
    exact ⟨c, cs, spelled, by simp [Guion.startsText, digits.1]⟩
  | .boolean _ value, _ => by
    rw [Expression.render]
    cases value <;> exact ⟨_, _, rfl, by decide⟩
  | .string _ value, _ => by
    rw [Expression.render]
    exact .append (.append ⟨_, _, rfl, by decide⟩ _) _
  | .unary _ op operand, _ => by
    rw [Expression.render]
    exact .append (.append (.append ⟨_, _, rfl, by decide⟩ _) _) _
  | .binary _ op left right, _ => by
    rw [Expression.render]
    have opening : StartsText "(" := ⟨_, _, rfl, by decide⟩
    exact .append (.append (.append (.append (.append (.append opening _) _) _) _) _) _
  | .assign _ target value, _ => by
    rw [Expression.render]
    exact .append (.append (.append (.append ⟨_, _, rfl, by decide⟩ _) _) _) _
  | .conditional _ condition consequence alternative, _ => by
    rw [Expression.render]
    exact .append (.append (.append (.append ⟨_, _, rfl, by decide⟩ _) _) _) _
  | .function _ parameters body, _ => by
    rw [Expression.render]
    exact .append (.append (.append ⟨_, _, rfl, by decide⟩ _) _) _
  | .call _ callee arguments, h => by
    simp only [Expression.printable, Bool.and_eq_true] at h
    rw [Expression.render]
    exact .append (.append (.append (callee.startsText h.1) _) _) _
  | .member _ target key computed, h => by
    simp only [Expression.printable, Bool.and_eq_true] at h
    have first := target.startsText h.1.1
    rw [Expression.render]
    split
    · exact .append (.append (.append first _) _) _
    · exact .append (.append first _) _
  | .object _ properties, _ => by
    rw [Expression.render]
    exact .append (.append ⟨_, _, rfl, by decide⟩ _) _

theorem Statement.startsText {s : Statement} (h : s.printable) : StartsText s.render := by
  cases s with
  | declaration token name value constant =>
    simp only [Statement.printable, Bool.and_eq_true, decide_eq_true_eq] at h
    have first : StartsText token.text := by
      rw [h.1.1.1]
      cases constant <;> exact ⟨_, _, rfl, by decide⟩
    rw [Statement.render]
    exact .append (.append (.append (.append first _) _) _) _
  | result token value =>
    rw [Statement.render]
    exact .append (.append ⟨_, _, rfl, by decide⟩ _) _
  | expression token value =>
    rw [Statement.render]
    exact value.startsText h
  | function token name parameters body =>
    rw [Statement.render]
    exact .append (.append (.append (.append (.append ⟨_, _, rfl, by decide⟩ _) _) _) _) _

end Guion
