import Guion.Proofs.Program.Places
import Guion.Proofs.Token.Spelling
import Mathlib.Tactic.SplitIfs

/-!
# Scanning across a newline

Some characters go on with no lexeme but a string (`EndsLexeme`), and what is scanned up to one of
them does not depend on what follows.  A newline is such a character, and it ends every comment too.
So the tokens of two texts with a newline between them are those of the first and those of the
second, which stand as far on as the first text is long (`scan_newline`).
-/

set_option autoImplicit false

namespace Guion

/-! ## Positions -/

namespace Position

theorem advance_append (p : Position) (cs ds : List Char) :
    p.advance (cs ++ ds) = (p.advance cs).advance ds :=
  List.foldl_append

/-- Where `p`, counted from the start of a text, stands when the text starts a line at `start`. -/
def shift (start p : Position) : Position :=
  ⟨start.offset + p.offset, start.line - 1 + p.line, p.column⟩

theorem next_shift (start p : Position) (c : Char) :
    (start.shift p).next c = start.shift (p.next c) := by
  simp only [next, shift]
  split <;> simp only [Nat.add_assoc]

theorem advance_shift (start : Position) (cs : List Char) :
    ∀ p, (start.shift p).advance cs = start.shift (p.advance cs) := by
  induction cs with
  | nil => exact fun _ => rfl
  | cons c cs ih =>
    intro p
    show ((start.shift p).next c).advance cs = _
    rw [next_shift, ih]
    rfl

theorem offset_le_advance (cs : List Char) : ∀ p : Position, p.offset ≤ (p.advance cs).offset := by
  induction cs with
  | nil => exact fun _ => Nat.le_refl _
  | cons c cs ih =>
    intro p
    have step : p.offset ≤ (p.next c).offset := by
      unfold next
      split <;> exact Nat.le_add_right _ _
    exact Nat.le_trans step (ih (p.next c))

theorem offset_lt_advance {cs : List Char} (some_char : cs ≠ []) (p : Position) :
    p.offset < (p.advance cs).offset := by
  obtain ⟨c, cs, rfl⟩ := List.exists_cons_of_ne_nil some_char
  have step : p.offset < (p.next c).offset := by
    unfold next
    split <;> exact Nat.lt_add_of_pos_right c.utf8Size_pos
  exact Nat.lt_of_lt_of_le step (offset_le_advance cs (p.next c))

end Position

/-! ## Tokens in their text -/

/-- Layout leaves the end of the text where it was. -/
theorem Cursor.advance_skipLayout (c : Cursor) :
    c.skipLayout.pos.advance c.skipLayout.rest = c.pos.advance c.rest := by
  rw [skipLayout, ← Position.advance_append, splitLayout_append]

/-- A token leaves the end of the text where it was. -/
theorem Cursor.advance_next (c : Cursor) :
    c.next.2.pos.advance c.next.2.rest = c.pos.advance c.rest := by
  have skipped := c.advance_skipLayout
  rw [next]
  cases left : c.skipLayout.rest with
  | nil =>
    rw [left] at skipped
    simp only [left, skipped]
  | cons ch cs =>
    simp only [← Position.advance_append, Lexeme.spelling_append_rest, ← left, skipped]

/-- A token stands inside its text. -/
theorem Cursor.offset_scan (c : Cursor) : ∀ t ∈ c.scan.tokens,
    t.pos.offset < (c.pos.advance c.rest).offset := by
  fun_induction Cursor.scan c with
  | case1 c step ended => exact fun t none => absurd none List.not_mem_nil
  | case2 c step inside shorter rest ih =>
    rw [c.advance_next] at ih
    refine List.forall_mem_cons.2 ⟨?_, ih⟩
    rw [← c.advance_skipLayout]
    have start : step.1.pos = c.skipLayout.pos := by
      show c.next.1.pos = _
      rw [next]
      split <;> rfl
    rw [start]
    refine Position.offset_lt_advance (fun none => inside ?_) _
    show c.next.1.kind = _
    rw [next, none]

theorem offset_scan (source : String) : ∀ t ∈ (scan source).tokens,
    t.pos.offset < (Position.start.advance source.toList).offset :=
  Cursor.offset_scan _

/-! ## Layout and lexemes before a character that ends them -/

/-- A token that is a string without its closing quote. -/
def Token.unterminated (t : Token) : Bool :=
  t.kind = .illegal && t.text.toList.head? = some '"'

/-- The character goes on with no lexeme but a string, and with no comment about to start. -/
structure EndsLexeme (stop : Char) : Prop where
  digit : Number.isDigit stop = false
  letter : isLetter stop = false
  point : stop ≠ '.'
  equals : stop ≠ '='
  slash : stop ≠ '/'

theorem endsLexeme_newline : EndsLexeme '\n' :=
  ⟨by decide, by decide, by decide, by decide, by decide⟩

section Ended

variable {stop : Char} (ends : EndsLexeme stop) (after : List Char)

include ends in
theorem head?_ended (cs : List Char) :
    (cs ++ stop :: after).head? = some '/' ↔ cs.head? = some '/' := by
  cases cs with
  | nil => simp [ends.slash]
  | cons d ds => rfl

include ends in
/-- Layout that ends before the character is the same with the character. -/
theorem splitLayout_ended {c : Char} {rest : List Char} (cs : List Char) :
    ∀ {comment : Bool} {skipped : List Char}, splitLayout comment cs = (skipped, c :: rest) →
      splitLayout comment (cs ++ stop :: after) = (skipped, c :: rest ++ stop :: after) := by
  induction cs with
  | nil =>
    intro comment skipped h
    cases h
  | cons d cs ih =>
    intro comment skipped h
    simp only [List.cons_append, splitLayout, head?_ended ends after cs] at h ⊢
    split_ifs at h ⊢ with inside space slash
    all_goals
      first
      | cases h
        rfl
      | obtain ⟨rfl, same⟩ := Prod.mk.inj h
        rw [ih (Prod.ext rfl same)]
        rfl

theorem takeWhile_ended {p : Char → Bool} (stops : p stop = false) (cs : List Char) :
    (cs ++ stop :: after).takeWhile p = cs.takeWhile p := by
  induction cs with
  | nil => simp [stops]
  | cons c cs ih =>
    simp only [List.cons_append, List.takeWhile_cons, ih]

theorem dropWhile_ended {p : Char → Bool} (stops : p stop = false) (cs : List Char) :
    (cs ++ stop :: after).dropWhile p = cs.dropWhile p ++ stop :: after := by
  induction cs with
  | nil => simp [stops]
  | cons c cs ih =>
    simp only [List.cons_append, List.dropWhile_cons, ih]
    split <;> rfl

namespace Lexeme

include ends in
theorem number_ended (c : Char) (cs : List Char) :
    number c (cs ++ stop :: after) =
      { number c cs with rest := (number c cs).rest ++ stop :: after } := by
  unfold number
  rw [takeWhile_ended after ends.digit, dropWhile_ended after ends.digit]
  cases cs.dropWhile Number.isDigit with
  | nil =>
    simp only [List.nil_append]
    split
    · rename_i same
      exact absurd (List.cons.inj same).1 ends.point
    · rfl
  | cons d ds =>
    by_cases point : d = '.'
    · subst point
      simp only [List.cons_append, takeWhile_ended after ends.digit,
        dropWhile_ended after ends.digit]
      split <;> rfl
    · simp only [List.cons_append]
      split
      · rename_i same
        exact absurd (List.cons.inj same).1 point
      · split
        · rename_i same
          exact absurd (List.cons.inj same).1 point
        · rfl

include ends in
theorem word_ended (c : Char) (cs : List Char) :
    word c (cs ++ stop :: after) =
      { word c cs with rest := (word c cs).rest ++ stop :: after } := by
  unfold word
  rw [takeWhile_ended after ends.letter, dropWhile_ended after ends.letter]

theorem quoted_ended {cs : List Char} (closed : (quoted cs).kind = .string) :
    quoted (cs ++ stop :: after) =
      { quoted cs with rest := (quoted cs).rest ++ stop :: after } := by
  unfold quoted at closed ⊢
  cases left : cs.dropWhile (· ≠ '"') with
  | nil =>
    simp only [left] at closed
    cases closed
  | cons close rest =>
    -- the closing quote stands before the character
    have short : (cs.takeWhile (· ≠ '"')).length ≠ cs.length := by
      intro same
      have lengths := congrArg List.length
        (List.takeWhile_append_dropWhile (p := (· ≠ '"')) (l := cs))
      rw [left, List.length_append, List.length_cons] at lengths
      omega
    rw [List.dropWhile_append, List.takeWhile_append, left, if_neg short]
    rfl

include ends in
theorem symbol_ended (c : Char) (cs : List Char) :
    symbol c (cs ++ stop :: after) =
      { symbol c cs with rest := (symbol c cs).rest ++ stop :: after } := by
  unfold symbol
  cases withEquals? c with
  | none => rfl
  | some kind =>
    cases cs with
    | nil =>
      simp only [List.nil_append]
      split
      · rename_i same
        exact absurd (List.cons.inj same).1 ends.equals
      · rfl
    | cons d ds =>
      by_cases equals : d = '='
      · subst equals
        rfl
      · simp only [List.cons_append]
        split
        · rename_i same
          exact absurd (List.cons.inj same).1 equals
        · split
          · rename_i same
            exact absurd (List.cons.inj same).1 equals
          · rfl

include ends in
/-- The first lexeme is the same with the character after the text, unless it is a string that goes
on past it. -/
theorem first_ended {c : Char} {cs : List Char} {pos : Position}
    (closed : Token.unterminated ⟨(first c cs).kind, (first c cs).text, pos⟩ = false) :
    first c (cs ++ stop :: after) =
      { first c cs with rest := (first c cs).rest ++ stop :: after } := by
  unfold first at closed ⊢
  split_ifs at closed ⊢ with digit letter quote
  · exact number_ended ends after c cs
  · exact word_ended ends after c cs
  · refine quoted_ended after ?_
    unfold quoted at closed ⊢
    split
    · rename_i open_
      simp only [open_] at closed
      simp [text, Token.unterminated] at closed
    · rfl
  · exact symbol_ended ends after c cs

end Lexeme

include ends in
/-- Before the character that ends it, a token is cut off as at the end of the text. -/
theorem Cursor.next_ended {c : Cursor} (inside : c.next.1.kind ≠ .endOfInput)
    (closed : c.next.1.unterminated = false) :
    (Cursor.mk c.pos (c.rest ++ stop :: after)).next =
      (c.next.1, ⟨c.next.2.pos, c.next.2.rest ++ stop :: after⟩) := by
  rw [next] at inside closed
  cases left : c.skipLayout.rest with
  | nil => simp [left] at inside
  | cons ch cs =>
    simp only [left] at closed
    have layout : splitLayout false c.rest = ((splitLayout false c.rest).1, ch :: cs) :=
      Prod.ext rfl left
    have skipped : (Cursor.mk c.pos (c.rest ++ stop :: after)).skipLayout =
        ⟨c.skipLayout.pos, ch :: cs ++ stop :: after⟩ := by
      simp only [skipLayout, splitLayout_ended ends after c.rest layout]
    simp only [next, skipped, left, List.cons_append, Lexeme.first_ended ends after closed]
    rfl

/-- At the end of the text only layout is left. -/
theorem Cursor.rest_skipLayout_of_end {c : Cursor} (ended : c.next.1.kind = .endOfInput) :
    c.skipLayout.rest = [] := by
  cases left : c.skipLayout.rest with
  | nil => rfl
  | cons ch cs =>
    have lexed := (Lexeme.lexed_first ch cs c.skipLayout.pos).not_end
    rw [next] at ended
    simp only [left] at ended
    exact absurd ended lexed

end Ended

/-! ## Newlines -/

section Newline

variable (after : List Char)

/-- Layout up to the newline goes on after it. -/
theorem splitLayout_newline_of_nil (cs : List Char) :
    ∀ {comment : Bool}, (splitLayout comment cs).2 = [] →
      splitLayout comment (cs ++ '\n' :: after) =
        (cs ++ '\n' :: (splitLayout false after).1, (splitLayout false after).2) := by
  induction cs with
  | nil =>
    intro comment _
    cases comment <;> rfl
  | cons d cs ih =>
    intro comment h
    simp only [List.cons_append, splitLayout, head?_ended endsLexeme_newline after cs] at h ⊢
    split_ifs at h ⊢ with inside space slash
    all_goals
      first
      | cases h
      | rw [ih h]

namespace Cursor

/-- The cursor with a newline and more text after its own. -/
def continued (c : Cursor) : Cursor := ⟨c.pos, c.rest ++ '\n' :: after⟩

/-- What follows the newline. -/
def beyond (c : Cursor) : Cursor := ⟨c.pos.advance (c.rest ++ ['\n']), after⟩

theorem beyond_next (c : Cursor) : c.next.2.beyond after = c.beyond after := by
  simp only [beyond, Position.advance_append, c.advance_next]

theorem next_continued_of_end {c : Cursor} (ended : c.next.1.kind = .endOfInput) :
    (c.continued after).next = (c.beyond after).next := by
  have none := c.rest_skipLayout_of_end ended
  have skipped : (c.continued after).skipLayout = (c.beyond after).skipLayout := by
    simp only [skipLayout, continued, beyond, splitLayout_newline_of_nil after c.rest none]
    rw [← Position.advance_append]
    simp
  simp only [next, skipped]

/-- Scanning past a newline is scanning up to it and then on from it. -/
theorem scan_continued (c : Cursor) : (∀ t ∈ c.scan.tokens, t.unterminated = false) →
    (c.continued after).scan = ⟨c.scan.tokens ++ (c.beyond after).scan.tokens,
      (c.beyond after).scan.finish⟩ := by
  fun_induction Cursor.scan c with
  | case1 c step ended =>
    intro _
    rw [scan_congr (next_continued_of_end after ended)]
    rfl
  | case2 c step inside shorter rest ih =>
    intro closed
    obtain ⟨here, others⟩ := List.forall_mem_cons.1 closed
    have next : (c.continued after).next = (c.next.1, c.next.2.continued after) :=
      next_ended endsLexeme_newline after inside here
    have before : (c.continued after).next.1.kind ≠ .endOfInput := by
      rw [next]
      exact inside
    rw [scan, dif_neg before]
    simp only [next]
    rw [ih others, beyond_next]
    rfl

end Cursor

end Newline

/-! ## Texts that start further on -/

/-- Scanned text at another place. -/
def Scanned.move (g : Position → Position) (s : Scanned) : Scanned :=
  ⟨s.tokens.map (Token.move g), s.finish.move g⟩

/-- Where a text starts does not matter to its tokens but for where they stand. -/
theorem Cursor.scan_shift (start : Position) (c : Cursor) :
    (Cursor.mk (start.shift c.pos) c.rest).scan = c.scan.move start.shift := by
  have layout (c : Cursor) : (Cursor.mk (start.shift c.pos) c.rest).skipLayout =
      ⟨start.shift c.skipLayout.pos, c.skipLayout.rest⟩ := by
    simp only [skipLayout, Position.advance_shift]
  have step (c : Cursor) : (Cursor.mk (start.shift c.pos) c.rest).next =
      (c.next.1.move start.shift, ⟨start.shift c.next.2.pos, c.next.2.rest⟩) := by
    simp only [next, layout]
    generalize c.skipLayout = d
    obtain ⟨pos, rest⟩ := d
    cases rest with
    | nil => rfl
    | cons ch cs =>
      simp only [Position.advance_shift]
      rfl
  fun_induction Cursor.scan c with
  | case1 c first ended =>
    have same : (Cursor.mk (start.shift c.pos) c.rest).next.1.kind = .endOfInput := by
      rw [step]
      exact ended
    rw [scan, dif_pos same, step]
    rfl
  | case2 c first inside shorter rest ih =>
    have same : (Cursor.mk (start.shift c.pos) c.rest).next.1.kind ≠ .endOfInput := by
      rw [step]
      exact inside
    rw [scan, dif_neg same]
    simp only [step]
    rw [ih]
    rfl

/-- Where the text after `first` and a newline starts. -/
def Position.afterLine (first : String) : Position :=
  Position.start.advance (first.toList ++ ['\n'])

theorem Position.shift_afterLine (first : String) :
    (Position.afterLine first).shift .start = Position.afterLine first := by
  have line : Position.afterLine first = (Position.start.advance first.toList).next '\n' :=
    Position.advance_append _ _ _
  rw [line, Position.next, if_pos rfl]
  rfl

/-- The tokens of two texts with a newline between them. -/
theorem scan_newline {first : String} (closed : ∀ t ∈ (scan first).tokens, t.unterminated = false)
    (second : String) :
    scan (first ++ "\n" ++ second) =
      ⟨(scan first).tokens ++ ((scan second).move (Position.afterLine first).shift).tokens,
        ((scan second).move (Position.afterLine first).shift).finish⟩ := by
  have text : Cursor.ofString (first ++ "\n" ++ second) =
      (Cursor.ofString first).continued second.toList := by
    simp [Cursor.ofString, Cursor.continued]
  have rest : (Cursor.ofString first).beyond second.toList =
      ⟨(Position.afterLine first).shift .start, second.toList⟩ := by
    rw [Position.shift_afterLine]
    rfl
  have moved : (Cursor.mk ((Position.afterLine first).shift .start) second.toList).scan =
      (scan second).move (Position.afterLine first).shift :=
    Cursor.scan_shift _ (Cursor.ofString second)
  rw [scan, text, Cursor.scan_continued second.toList (Cursor.ofString first) closed, rest, moved]
  rfl

theorem tokens_newline {first : String}
    (closed : ∀ t ∈ (scan first).tokens, t.unterminated = false) (second : String) :
    (scan (first ++ "\n" ++ second)).tokens = (scan first).tokens ++
      (scan second).tokens.map (Token.move (Position.afterLine first).shift) :=
  congrArg Scanned.tokens (scan_newline closed second)

/-- The tokens of a text stay terminated at another place. -/
theorem unterminated_move {tokens : List Token} (closed : ∀ t ∈ tokens, t.unterminated = false)
    (g : Position → Position) : ∀ t ∈ tokens.map (Token.move g), t.unterminated = false := by
  intro t member
  obtain ⟨u, inside, rfl⟩ := List.mem_map.1 member
  exact closed u inside

/-! ## Strings without a closing quote -/

theorem Cursor.next_of_nil {c : Cursor} (left : c.skipLayout.rest = []) :
    c.next = (⟨.endOfInput, "", c.skipLayout.pos⟩, c.skipLayout) := by
  simp only [next, left]

theorem Cursor.next_of_cons {c : Cursor} {ch : Char} {cs : List Char}
    (left : c.skipLayout.rest = ch :: cs) :
    c.next = (⟨(Lexeme.first ch cs).kind, (Lexeme.first ch cs).text, c.skipLayout.pos⟩,
      ⟨c.skipLayout.pos.advance (Lexeme.first ch cs).spelling, (Lexeme.first ch cs).rest⟩) := by
  simp only [next, left]

/-- A string without its closing quote takes the rest of the text. -/
theorem Lexeme.rest_of_unterminated {c : Char} {cs : List Char} {pos : Position}
    (open_ : Token.unterminated ⟨(first c cs).kind, (first c cs).text, pos⟩ = true) :
    (first c cs).rest = [] := by
  rw [Token.unterminated, Bool.and_eq_true, decide_eq_true_eq, decide_eq_true_eq] at open_
  have illegal : (first c cs).kind = .illegal := open_.1
  have quote : (first c cs).text.toList.head? = some '"' := open_.2
  rw [text, if_neg (by rw [illegal]; decide), String.toList_ofList] at quote
  -- the spelling starts with the first character, so that is the quote
  obtain ⟨more, spelled⟩ := List.head?_eq_some_iff.1 quote
  have whole := spelling_append_rest c cs
  rw [spelled] at whole
  obtain ⟨rfl, -⟩ := List.cons.inj whole
  have string : first '"' cs = quoted cs := rfl
  rw [string, quoted] at illegal ⊢
  split
  · rfl
  · rename_i closed
    rw [closed] at illegal
    cases illegal

/-- Only the last token can be a string without its closing quote. -/
theorem Cursor.unterminated_dropLast (c : Cursor) :
    ∀ t ∈ c.scan.tokens.dropLast, t.unterminated = false := by
  fun_induction Cursor.scan c with
  | case1 c step ended => simp
  | case2 c step inside shorter rest ih =>
    show ∀ t ∈ (c.next.1 :: rest.tokens).dropLast, t.unterminated = false
    cases others : rest.tokens with
    | nil => simp
    | cons u us =>
      rw [others] at ih
      rw [List.dropLast_cons_of_ne_nil (List.cons_ne_nil _ _)]
      refine List.forall_mem_cons.2 ⟨Bool.eq_false_iff.2 fun open_ => ?_, ih⟩
      -- nothing would be left to scan after it
      have none : c.next.2.rest = [] := by
        cases left : c.skipLayout.rest with
        | nil =>
          have ended : c.next.1.kind = .endOfInput := by rw [next_of_nil left]
          exact absurd ended inside
        | cons ch cs =>
          rw [next_of_cons left] at open_ ⊢
          exact Lexeme.rest_of_unterminated open_
      have empty := scan_nil c.next.2.pos
      rw [← none] at empty
      exact absurd (empty.symm.trans others) (List.cons_ne_nil _ _).symm

/-- If the last token is no string without its closing quote, no token is. -/
theorem unterminated_of_getLast? {source : String}
    (last : ∀ t ∈ (scan source).tokens.getLast?, t.unterminated = false) :
    ∀ t ∈ (scan source).tokens, t.unterminated = false := by
  have others := Cursor.unterminated_dropLast (Cursor.ofString source)
  cases found : (scan source).tokens.getLast? with
  | none =>
    rw [List.getLast?_eq_none_iff.1 found]
    exact nofun
  | some u =>
    obtain ⟨front, tokens⟩ := List.getLast?_eq_some_iff.1 found
    rw [← scan, tokens, List.dropLast_concat] at others
    rw [tokens]
    exact List.forall_mem_append.2 ⟨others, List.forall_mem_singleton.2 (last u found)⟩

/-- Before a last semicolon all strings are closed. -/
theorem unterminated_of_semicolon {source : String} {front : List Token} {semicolon : Token}
    (tokens : (scan source).tokens = front ++ [semicolon]) (kind : semicolon.kind = .semicolon) :
    ∀ t ∈ (scan source).tokens, t.unterminated = false := by
  refine unterminated_of_getLast? ?_
  rw [tokens, List.getLast?_concat]
  rintro t ⟨⟩
  rw [Token.unterminated, kind]
  rfl

end Guion
