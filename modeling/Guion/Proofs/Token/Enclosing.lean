import Guion.Proofs.Token.Joining

/-!
# Scanning up to a bracket

A bracket ends every lexeme but an unterminated string.  So in a text without comments, the tokens
up to a bracket are those of the text up to there, and the bracket and the tokens after it follow
(`shapes_ended`).

What matters about the tokens here is what they are and not where they stand (`shapes`).
-/

set_option autoImplicit false

namespace Guion

/-! ## Tokens without places -/

/-- The token without its place. -/
def Token.shape (t : Token) : Token := t.move fun _ => default

/-- The tokens of a text, without their places. -/
def shapes (cs : List Char) : List Token := (tokensAt .start cs).map Token.shape

theorem Cursor.shape_next (c : Cursor) (pos : Position) :
    (Cursor.mk pos c.rest).next.1.shape = c.next.1.shape ∧
      (Cursor.mk pos c.rest).next.2.rest = c.next.2.rest := by
  have layout : (Cursor.mk pos c.rest).skipLayout.rest = c.skipLayout.rest := rfl
  cases left : c.skipLayout.rest with
  | nil =>
    rw [next_of_nil left, next_of_nil (layout.trans left), left, layout.trans left]
    exact ⟨rfl, rfl⟩
  | cons ch cs =>
    rw [next_of_cons left, next_of_cons (layout.trans left)]
    exact ⟨rfl, rfl⟩

theorem Cursor.shape_scan (c : Cursor) (pos : Position) :
    (Cursor.mk pos c.rest).scan.tokens.map Token.shape = c.scan.tokens.map Token.shape := by
  fun_induction Cursor.scan c generalizing pos with
  | case1 c step ended =>
    have same : (Cursor.mk pos c.rest).next.1.kind = .endOfInput :=
      (congrArg Token.kind (c.shape_next pos).1).trans ended
    rw [scan, dif_pos same]
  | case2 c step inside shorter rest ih =>
    obtain ⟨first, left⟩ := c.shape_next pos
    have same : (Cursor.mk pos c.rest).next.1.kind ≠ .endOfInput :=
      fun ended => inside ((congrArg Token.kind first).symm.trans ended)
    rw [scan, dif_neg same]
    simp only [List.map_cons, first]
    rw [← ih (Cursor.mk pos c.rest).next.2.pos, ← left]

/-- Where a text starts does not matter. -/
theorem shapes_eq (pos : Position) (cs : List Char) :
    shapes cs = (tokensAt pos cs).map Token.shape :=
  Cursor.shape_scan ⟨pos, cs⟩ .start

theorem shapes_nil : shapes [] = [] := by
  rw [shapes, tokensAt, Cursor.scan_nil, List.map_nil]

theorem shapes_space {c : Char} (space : isSpace c = true) (cs : List Char) :
    shapes (c :: cs) = shapes cs := by
  rw [shapes, tokensAt_space space, ← shapes_eq]

/-- A character that is a token by itself and that no equals sign joins. -/
theorem shapes_mark (c : Char) {kind : Token.Kind} (single : Lexeme.single? c = some kind)
    (alone : Lexeme.withEquals? c = none ∧ c ≠ '/') (rest : List Char) :
    shapes (c :: rest) = ⟨kind, String.ofList [c], default⟩ :: shapes rest := by
  rw [shapes, tokensAt_mark c single alone, List.map_cons, ← shapes_eq]
  rfl

theorem shapes_keyword (text : String) {kind : Token.Kind} {rest : List Char}
    (reserved : Token.keyword? text = some kind) (apart : Apart isLetter rest) :
    shapes (text.toList ++ rest) = ⟨kind, text, default⟩ :: shapes rest := by
  rw [shapes, tokensAt_keyword text reserved apart, List.map_cons, ← shapes_eq]
  rfl

theorem lexed_shapes (cs : List Char) : ∀ t ∈ shapes cs, t.Lexed := by
  intro t member
  obtain ⟨u, listed, rfl⟩ := List.mem_map.1 member
  have lexed := (Cursor.lexed_scan ⟨.start, cs⟩).1 u listed
  exact ⟨lexed.not_end, lexed.integer, lexed.float⟩

/-- The end of input has no text. -/
theorem Cursor.shape_finish (c : Cursor) : c.scan.finish.shape = ⟨.endOfInput, "", default⟩ := by
  fun_induction Cursor.scan c with
  | case1 c step ended =>
    show c.next.1.shape = _
    rw [next_of_nil (c.rest_skipLayout_of_end ended)]
    rfl
  | case2 c step inside shorter rest ih => exact ih

/-! ## Texts without comments -/

/-- Nothing but blanks stands before each token and at the end. -/
def Cursor.uncommented (c : Cursor) : Bool :=
  (splitLayout false c.rest).1.all isSpace &&
    if h : c.next.1.kind = .endOfInput then true
    else
      have := length_rest_next_lt h
      c.next.2.uncommented
termination_by c.rest.length
decreasing_by exact this

/-- There is no comment in the text. -/
def uncommented (source : String) : Bool := (Cursor.ofString source).uncommented

theorem shapes_blanks {gap : List Char} (blank : gap.all isSpace = true) (rest : List Char) :
    shapes (gap ++ rest) = shapes rest := by
  induction gap with
  | nil => rfl
  | cons c gap ih =>
    rw [List.all_cons, Bool.and_eq_true] at blank
    rw [List.cons_append, shapes_space blank.1, ih blank.2]

theorem Cursor.shapes_ended {stop : Char} (ends : EndsLexeme stop) (after : List Char)
    (c : Cursor) :
    c.uncommented = true → (∀ t ∈ c.scan.tokens, t.unterminated = false) →
      shapes (c.rest ++ stop :: after) =
        c.scan.tokens.map Token.shape ++ shapes (stop :: after) := by
  fun_induction Cursor.scan c with
  | case1 c step ended =>
    intro plain _
    rw [uncommented, Bool.and_eq_true] at plain
    have layout := splitLayout_append false c.rest
    have none : (splitLayout false c.rest).2 = [] := c.rest_skipLayout_of_end ended
    rw [none, List.append_nil] at layout
    rw [← layout, shapes_blanks plain.1]
    rfl
  | case2 c step inside shorter rest ih =>
    intro plain closed
    rw [uncommented, Bool.and_eq_true, dif_neg inside] at plain
    obtain ⟨here, others⟩ := List.forall_mem_cons.1 closed
    have next := c.next_ended ends after inside here
    have before : (Cursor.mk c.pos (c.rest ++ stop :: after)).next.1.kind ≠ .endOfInput := by
      rw [next]
      exact inside
    have later := ih plain.2 others
    rw [shapes_eq c.next.2.pos] at later
    rw [shapes_eq c.pos, tokensAt, scan, dif_neg before]
    simp only [next]
    exact congrArg (c.next.1.shape :: ·) later

/-- The tokens of a text up to a character that ends its last lexeme. -/
theorem shapes_ended {stop : Char} (ends : EndsLexeme stop) {source : String}
    (plain : uncommented source = true)
    (closed : ∀ t ∈ (scan source).tokens, t.unterminated = false) (after : List Char) :
    shapes (source.toList ++ stop :: after) = shapes source.toList ++ shapes (stop :: after) :=
  Cursor.shapes_ended ends after (Cursor.ofString source) plain closed

end Guion
