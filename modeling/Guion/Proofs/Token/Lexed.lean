import Guion.Token.Scan

/-!
# Scanned tokens

What the kind of a scanned token says about its text, as far as reading a program relies on it:
the end of input comes only last, integers are runs of digits, and floats are digits with a point
among them.
-/

set_option autoImplicit false

namespace Guion

/-- Digits, at least one. -/
def DigitRun (cs : List Char) : Prop := cs ≠ [] ∧ cs.all Number.isDigit

/-- A token with the text that its kind asks for. -/
structure Token.Lexed (t : Token) : Prop where
  not_end : t.kind ≠ .endOfInput
  integer : t.kind = .integer → DigitRun t.text.toList
  float : t.kind = .float → ∃ whole fraction,
    t.text.toList = whole ++ '.' :: fraction ∧ DigitRun whole ∧ DigitRun fraction

namespace Lexeme

theorem digitRun_cons {c : Char} {cs : List Char} (h : Number.isDigit c) :
    DigitRun (c :: cs.takeWhile Number.isDigit) := by
  refine ⟨List.cons_ne_nil _ _, ?_⟩
  simp [h, List.all_takeWhile]

theorem lexed_number {c : Char} (cs : List Char) (h : Number.isDigit c) (pos : Position) :
    Token.Lexed ⟨(number c cs).kind, (number c cs).text, pos⟩ := by
  have whole : DigitRun (c :: cs.takeWhile Number.isDigit) := digitRun_cons h
  rw [number]
  split
  · rename_i after _
    split
    · exact ⟨nofun, nofun, nofun⟩
    · rename_i fraction places
      refine ⟨nofun, nofun, fun _ => ?_⟩
      refine ⟨_, after.takeWhile Number.isDigit, ?_, whole, places, List.all_takeWhile⟩
      simp [text]
  · refine ⟨nofun, fun _ => ?_, nofun⟩
    simpa [text] using whole

theorem lexed_of_kind {l : Lexeme} (pos : Position) (not_end : l.kind ≠ .endOfInput)
    (not_integer : l.kind ≠ .integer) (not_float : l.kind ≠ .float) :
    Token.Lexed ⟨l.kind, l.text, pos⟩ :=
  ⟨not_end, fun h => absurd h not_integer, fun h => absurd h not_float⟩

theorem mem_keywords {word : String} {kind : Token.Kind} (h : Token.keyword? word = some kind) :
    (word, kind) ∈ Token.keywords := by
  obtain ⟨before, after, listed, -⟩ := List.lookup_eq_some_iff.1 h
  simp [listed]

/-- A reserved word is of none of the kinds that ask for a certain text. -/
theorem keyword?_ne {word : String} {kind : Token.Kind} (h : Token.keyword? word = some kind) :
    kind ≠ .endOfInput ∧ kind ≠ .integer ∧ kind ≠ .float ∧ kind ≠ .string := by
  have every : ∀ entry ∈ Token.keywords,
      entry.2 ≠ .endOfInput ∧ entry.2 ≠ .integer ∧ entry.2 ≠ .float ∧ entry.2 ≠ .string := by
    decide
  exact every (word, kind) (mem_keywords h)

theorem lexed_word (c : Char) (cs : List Char) (pos : Position) :
    Token.Lexed ⟨(word c cs).kind, (word c cs).text, pos⟩ := by
  have kinds : (word c cs).kind ≠ .endOfInput ∧ (word c cs).kind ≠ .integer ∧
      (word c cs).kind ≠ .float := by
    have kind : (word c cs).kind =
        (Token.keyword? (String.ofList (c :: cs.takeWhile isLetter))).getD .identifier := rfl
    rw [kind]
    cases reserved : Token.keyword? (String.ofList (c :: cs.takeWhile isLetter)) with
    | none => exact ⟨nofun, nofun, nofun⟩
    | some kind =>
      obtain ⟨not_end, not_integer, not_float, -⟩ := keyword?_ne reserved
      exact ⟨not_end, not_integer, not_float⟩
  exact lexed_of_kind pos kinds.1 kinds.2.1 kinds.2.2

theorem lexed_quoted (cs : List Char) (pos : Position) :
    Token.Lexed ⟨(quoted cs).kind, (quoted cs).text, pos⟩ := by
  rw [quoted]
  split <;> exact ⟨nofun, nofun, nofun⟩

theorem lexed_symbol (c : Char) (cs : List Char) (pos : Position) :
    Token.Lexed ⟨(symbol c cs).kind, (symbol c cs).text, pos⟩ := by
  have kinds : (symbol c cs).kind ≠ .endOfInput ∧ (symbol c cs).kind ≠ .integer ∧
      (symbol c cs).kind ≠ .float := by
    unfold symbol
    split
    · rename_i joined
      unfold withEquals? at joined
      split at joined <;> cases joined <;> exact ⟨nofun, nofun, nofun⟩
    · unfold single?
      split <;> exact ⟨nofun, nofun, nofun⟩
  exact lexed_of_kind pos kinds.1 kinds.2.1 kinds.2.2

theorem lexed_first (c : Char) (cs : List Char) (pos : Position) :
    Token.Lexed ⟨(first c cs).kind, (first c cs).text, pos⟩ := by
  rw [first]
  split
  · exact lexed_number cs ‹_› pos
  · split
    · exact lexed_word c cs pos
    · split
      · exact lexed_quoted cs pos
      · exact lexed_symbol c cs pos

end Lexeme

/-- A token is the end of input, or one with the text that its kind asks for. -/
theorem Cursor.lexed_next {c : Cursor} (h : c.next.1.kind ≠ .endOfInput) : c.next.1.Lexed := by
  rw [Cursor.next] at h ⊢
  cases text : c.skipLayout.rest with
  | nil => simp [text] at h
  | cons ch cs =>
    exact Lexeme.lexed_first ch cs _

/-- What holds of each token that is cut off holds of all tokens of a text. -/
theorem Cursor.forall_scan {P : Token → Prop}
    (step : ∀ c : Cursor, c.next.1.kind ≠ .endOfInput → P c.next.1) (c : Cursor) :
    ∀ t ∈ c.scan.tokens, P t := by
  fun_induction Cursor.scan c with
  | case1 c first ended => exact fun t h => absurd h List.not_mem_nil
  | case2 c first inside shorter after ih =>
    intro t h
    rcases List.mem_cons.1 h with rfl | h
    · exact step c inside
    · exact ih t h

theorem Cursor.kind_finish (c : Cursor) : c.scan.finish.kind = .endOfInput := by
  fun_induction Cursor.scan c with
  | case1 c step ended => exact ended
  | case2 c step inside shorter after ih => exact ih

theorem Cursor.lexed_scan (c : Cursor) :
    (∀ t ∈ c.scan.tokens, t.Lexed) ∧ c.scan.finish.kind = .endOfInput :=
  ⟨forall_scan (fun _ => lexed_next) c, c.kind_finish⟩

theorem lexed_scan (source : String) : ∀ t ∈ (scan source).tokens, t.Lexed :=
  (Cursor.lexed_scan _).1

theorem kind_finish_scan (source : String) : (scan source).finish.kind = .endOfInput :=
  (Cursor.lexed_scan _).2

/-- The tokens of `source` before the end of input. -/
def words (source : String) : List Token :=
  (tokenize source).filter fun t => t.kind ≠ .endOfInput

theorem words_eq (source : String) : words source = (scan source).tokens := by
  have inside : ∀ t ∈ (scan source).tokens, t.kind ≠ .endOfInput :=
    fun t member => (lexed_scan source t member).not_end
  have kept : (scan source).tokens.filter (fun t => t.kind ≠ .endOfInput) = (scan source).tokens :=
    List.filter_eq_self.2 fun t member => decide_eq_true (inside t member)
  have dropped : [(scan source).finish].filter (fun t => t.kind ≠ .endOfInput) = [] := by
    simp [kind_finish_scan source]
  rw [words, tokenize, List.filter_append, kept, dropped, List.append_nil]

end Guion
