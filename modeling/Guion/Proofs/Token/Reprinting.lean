import Guion.Proofs.Token.Enclosing
import Guion.Proofs.Token.Munch

/-!
# Texts made of texts and of tokens

The tokens of two texts with a newline between them are those of the first and those of the second,
further on (`tokenize_newline`).  And the tokens of a text, written one after the other with a blank
between them, are scanned as they were (`tokens_survive_reprinting`).

For the second, a lexeme is a fixed point of scanning: cut off the front of a text and put on its
own, it is the lexeme that it was (`Lexeme.first_alone`).  A blank ends every lexeme but a string
without its closing quote, and that one can only be the last token, with no blank after it.
-/

set_option autoImplicit false

namespace Guion

open Munch

/-! ## Two texts with a newline between them -/

theorem dropLast_tokenize (source : String) : (tokenize source).dropLast = (scan source).tokens :=
  List.dropLast_concat

/-- **Scanning is compositional across a newline.**  Where the first text does not end in a string
without its closing quote, the tokens of both are those of the first, without the end of input, and
those of the second, as many bytes and lines further on as the first text and the newline have, in
the same columns. -/
theorem tokenize_newline (first second : String)
    (closed : ∀ t ∈ (tokenize first).dropLast.getLast?, t.unterminated = false) :
    tokenize (first ++ "\n" ++ second) =
      (tokenize first).dropLast ++ (tokenize second).map fun t => { t with pos :=
        ⟨t.pos.offset + (first.utf8ByteSize + 1), t.pos.line + (1 + first.toList.count '\n'),
          t.pos.column⟩ } := by
  rw [dropLast_tokenize] at closed ⊢
  have shift (t : Token) : t.move (Position.afterLine first).shift = { t with pos :=
      ⟨t.pos.offset + (first.utf8ByteSize + 1), t.pos.line + (1 + first.toList.count '\n'),
        t.pos.column⟩ } := by
    rw [Token.move, Position.shift_afterLine_apply]
    congr 2 <;> omega
  have both := scan_newline (unterminated_of_getLast? closed) second
  rw [tokenize, both, tokenize, ← funext shift, List.map_append, List.append_assoc]
  rfl

/-- A quote in a comment and a line break in a string, before a string that is not closed. -/
theorem tokenize_newline_commented :
    (∀ t ∈ (tokenize "x = \"é\n\" // \"").dropLast.getLast?, t.unterminated = false) ∧
      tokenize ("x = \"é\n\" // \"" ++ "\n" ++ "12. \"") =
        (tokenize "x = \"é\n\" // \"").dropLast ++
          (tokenize "12. \"").map fun t => { t with pos :=
            ⟨t.pos.offset + (14 + 1), t.pos.line + (1 + 1), t.pos.column⟩ } := by
  have closed : ∀ t ∈ (tokenize "x = \"é\n\" // \"").dropLast.getLast?, t.unterminated = false := by
    decide +kernel
  exact ⟨closed, tokenize_newline "x = \"é\n\" // \"" "12. \"" closed⟩

/-! ## Lexemes on their own -/

namespace Munch

/-- What spells a token before some text spells it at the end of the text. -/
theorem Spells.alone {rest front : List Char} {kind : Token.Kind} {word : String}
    (h : Spells rest kind word front) : Spells [] kind word front := by
  cases h with
  | word letters named => exact .word letters named
  | integer digits => exact .integer digits
  | float digits places => exact .float digits places
  | point digits => exact .point digits
  | string plain => exact .string plain
  | unclosed plain _ => exact .unclosed plain rfl
  | mark listed => exact .mark listed

/-- A spelling on its own is cut off as a whole. -/
theorem Spells.first_eq {c : Char} {cs rest : List Char} {kind : Token.Kind} {word : String}
    (h : Spells rest kind word (c :: cs)) : Lexeme.first c cs = ⟨kind, c :: cs, []⟩ := by
  have cut := Lexeme.spelling_append_rest c cs
  rcases h.alone.covered (List.append_nil _).symm with shorter | ⟨rfl, -, whole⟩
  · -- a lexeme is no longer than the text that it is cut off
    have lengths := congrArg List.length cut
    rw [List.length_append] at lengths
    omega
  · rw [← whole] at cut
    have none : (Lexeme.first c cs).rest = [] := List.append_right_eq_self.1 cut
    rw [whole, ← none]

/-- What can start a spelling starts the lexeme that is cut off. -/
theorem spells_first_of_starts {c : Char}
    (h : Letter c ∨ Digit c ∨ c = '"' ∨ Lexeme.single? c ≠ none) (cs : List Char) :
    Spells (Lexeme.first c cs).rest (Lexeme.first c cs).kind (Lexeme.first c cs).text
      (Lexeme.first c cs).spelling := by
  rcases h with letter | digit | rfl | known
  · rw [first_of_letter letter]
    exact spells_word cs letter
  · rw [first_of_digit digit]
    exact spells_number cs digit
  · exact spells_quoted cs
  · rw [first_of_single? known]
    exact spells_symbol cs known

/-- A character that spells nothing before some text spells nothing on its own. -/
theorem first_of_unspelled {c : Char} {cs : List Char}
    (nothing : ∀ front rest kind word, c :: cs = front ++ rest → ¬ Spells rest kind word front) :
    Lexeme.first c [] = ⟨.illegal, [c], []⟩ := by
  rcases spells_first c [] with spelled | ⟨single, -⟩
  · have starts := spelled.starts (Lexeme.spelling_append_rest c []).symm
    exact absurd (spells_first_of_starts starts cs)
      (nothing _ _ _ _ (Lexeme.spelling_append_rest c cs).symm)
  · exact single

end Munch

/-- A lexeme on its own is the lexeme that was cut off. -/
theorem Lexeme.first_alone (c : Char) (cs : List Char) : ∃ tail,
    (first c cs).spelling = c :: tail ∧ first c tail = ⟨(first c cs).kind, c :: tail, []⟩ := by
  rcases spells_first c cs with spelled | ⟨single, nothing⟩
  · obtain ⟨d, tail, front⟩ := List.exists_cons_of_ne_nil spelled.ne_nil
    have cut := spelling_append_rest c cs
    rw [front, List.cons_append] at cut
    obtain ⟨rfl, -⟩ := List.cons.inj cut
    rw [front] at spelled
    exact ⟨tail, front, spelled.first_eq⟩
  · rw [single]
    exact ⟨[], rfl, first_of_unspelled nothing⟩

/-! ## Tokens on their own -/

/-- The spelling of the token does not start with a blank, and the token is what is cut off its
spelling. -/
def Token.Stands (t : Token) : Prop :=
  ∃ c cs, t.spelling = c :: cs ∧ isSpace c = false ∧ Lexeme.first c cs = ⟨t.kind, c :: cs, []⟩

/-- What follows layout is no blank. -/
theorem isSpace_of_splitLayout {c : Char} {rest : List Char} (cs : List Char) :
    ∀ comment, (splitLayout comment cs).2 = c :: rest → isSpace c = false := by
  induction cs with
  | nil =>
    intro comment h
    cases h
  | cons d cs ih =>
    intro comment h
    rw [splitLayout] at h
    split_ifs at h with inside space slashes
    · exact ih _ h
    · exact ih _ h
    · exact ih _ h
    · cases h
      exact Bool.eq_false_iff.2 space

theorem Cursor.stands_next {c : Cursor} (h : c.next.1.kind ≠ .endOfInput) : c.next.1.Stands := by
  cases left : c.skipLayout.rest with
  | nil =>
    rw [next_of_nil left] at h
    exact absurd rfl h
  | cons ch cs =>
    obtain ⟨tail, spelled, alone⟩ := Lexeme.first_alone ch cs
    rw [next_of_cons left]
    refine ⟨ch, tail, ?_, isSpace_of_splitLayout c.rest false left, alone⟩
    rw [Lexeme.spelling_first, spelled]

theorem stands_scan (source : String) : ∀ t ∈ (scan source).tokens, t.Stands :=
  Cursor.forall_scan (fun _ => Cursor.stands_next) _

/-- The text of a token is that of a lexeme with its kind and spelling. -/
theorem Token.text_of_spelling (t : Token) (rest : List Char) :
    Lexeme.text ⟨t.kind, t.spelling, rest⟩ = t.text := by
  by_cases string : t.kind = .string
  · simp [Lexeme.text, Token.spelling, string]
  · simp [Lexeme.text, Token.spelling, string]

theorem endsLexeme_space : EndsLexeme ' ' :=
  ⟨by decide, by decide, by decide, by decide, by decide⟩

/-- A token is scanned from its spelling where the text after it leaves the lexeme as it is, and
makes no comment of a slash. -/
theorem shapes_of_first {t : Token} {c : Char} {cs after : List Char}
    (spelled : t.spelling = c :: cs) (inside : isSpace c = false)
    (next : Lexeme.first c (cs ++ after) = ⟨t.kind, c :: cs, after⟩)
    (apart : after.head? ≠ some '/') :
    shapes (t.spelling ++ after) = t.shape :: shapes after := by
  have text : (Lexeme.first c (cs ++ after)).text = t.text := by
    rw [next, ← spelled, t.text_of_spelling]
  have no_comment : ¬ (c = '/' ∧ (cs ++ after).head? = some '/') := by
    rintro ⟨rfl, second⟩
    -- a slash is a lexeme by itself, so all that follows it is the text after it
    have rest : cs ++ after = after := congrArg Lexeme.rest next
    rw [rest] at second
    exact apart second
  rw [spelled, List.cons_append, shapes, tokensAt_first inside no_comment, text, next,
    List.map_cons, ← shapes_eq]
  rfl

/-- A token on its own is scanned as it was. -/
theorem Token.Stands.shapes_spelling {t : Token} (h : t.Stands) :
    shapes t.spelling = [t.shape] := by
  obtain ⟨c, cs, spelled, inside, alone⟩ := h
  have next : Lexeme.first c (cs ++ []) = ⟨t.kind, c :: cs, []⟩ := by rwa [List.append_nil]
  have last := shapes_of_first spelled inside next nofun
  rwa [List.append_nil, shapes_nil] at last

/-- A token before a blank is scanned as it was, and then what follows the blank. -/
theorem Token.Stands.shapes_before_space {t : Token} (h : t.Stands)
    (closed : t.unterminated = false) (rest : List Char) :
    shapes (t.spelling ++ ' ' :: rest) = t.shape :: shapes rest := by
  obtain ⟨c, cs, spelled, inside, alone⟩ := h
  have text : (Lexeme.first c cs).text = t.text := by
    rw [alone, ← spelled, t.text_of_spelling]
  have same : Token.unterminated ⟨(Lexeme.first c cs).kind, (Lexeme.first c cs).text, t.pos⟩ =
      false := by
    rw [text, alone]
    exact closed
  have next := Lexeme.first_ended endsLexeme_space rest same
  rw [alone] at next
  rw [shapes_of_first spelled inside next (by simp), shapes_space rfl]

/-! ## Reprinted texts -/

/-- The tokens as they are written, with a blank between them. -/
def reprint (ts : List Token) : String :=
  " ".intercalate (ts.map fun t => String.ofList t.spelling)

/-- Tokens that stand on their own are scanned as they were.  All but the last have a blank after
them, so only the last may be a string without its closing quote. -/
theorem shapes_reprint : ∀ ts : List Token, (∀ t ∈ ts, t.Stands) →
    (∀ t ∈ ts.dropLast, t.unterminated = false) →
      shapes (reprint ts).toList = ts.map Token.shape
  | [], _, _ => shapes_nil
  | [t], stand, _ => by
    have spelled : (reprint [t]).toList = t.spelling := by simp [reprint]
    rw [spelled, (stand t List.mem_cons_self).shapes_spelling]
    rfl
  | t :: u :: ts, stand, closed => by
    have spelled : (reprint (t :: u :: ts)).toList =
        t.spelling ++ ' ' :: (reprint (u :: ts)).toList := by
      simp [reprint, String.intercalate_cons_cons]
    obtain ⟨here, others⟩ := List.forall_mem_cons.1 stand
    rw [List.dropLast_cons_of_ne_nil (List.cons_ne_nil _ _)] at closed
    obtain ⟨ended, later⟩ := List.forall_mem_cons.1 closed
    rw [spelled, here.shapes_before_space ended, shapes_reprint (u :: ts) others later]
    rfl

/-- Without their places, the tokens of a text are its shapes and the end of input. -/
theorem shape_tokenize (source : String) :
    (tokenize source).map Token.shape = shapes source.toList ++ [⟨.endOfInput, "", default⟩] := by
  rw [tokenize, List.map_append, List.map_singleton, scan, Cursor.shape_finish]
  rfl

/-- **Tokens survive reprinting.**  Write the tokens of a text, illegal ones as well, each as its
text, in quotes if it is a string, and with single blanks between them: the kinds and texts of the
tokens of that are those of the tokens of the text. -/
theorem tokens_survive_reprinting (source : String) :
    (tokenize (reprint (words source))).map (fun t => (t.kind, t.text)) =
      (tokenize source).map fun t => (t.kind, t.text) := by
  have closed : ∀ t ∈ (scan source).tokens.dropLast, t.unterminated = false :=
    Cursor.unterminated_dropLast (Cursor.ofString source)
  have same : (tokenize (reprint (words source))).map Token.shape =
      (tokenize source).map Token.shape := by
    rw [shape_tokenize, shape_tokenize, words_eq, shapes_reprint _ (stands_scan source) closed]
    rfl
  -- the place of a token is all that its shape leaves out
  have forgotten (ts : List Token) : ts.map (fun t => (t.kind, t.text)) =
      (ts.map Token.shape).map fun t => (t.kind, t.text) := by
    rw [List.map_map]
    rfl
  rw [forgotten, same, ← forgotten]

example : reprint (words "a=\"b c\"//d\n/ 12.==. \"e") = "a = \"b c\" / 12. == . \"e" := by
  decide +kernel

end Guion
