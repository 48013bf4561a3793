import Guion.Proofs.Token.Joining

/-!
# Tokens tile the source

The tokens of a text, in the spellings they have in it, and the layout between them are the text
(`tokens_tile`).  Where a token stands is told by the text before it alone: its offset is the bytes
of that text, its line the newlines in it, and its column the characters since the last of them.

`Tiles` is the relation between a text and its tokens without the scanner: gaps of layout and
spellings in turn, up to the end of input.  Scanning yields tokens that are so related
(`Cursor.tiles_scan`), and offsets, spans and the end of input are read off the relation.
-/

set_option autoImplicit false

namespace Guion

/-! ## Positions -/

namespace Position

/-- Where a text stands that follows `before`. -/
def after (before : List Char) : Position :=
  ⟨(String.ofList before).utf8ByteSize, 1 + before.count '\n',
    1 + (before.reverse.takeWhile (· ≠ '\n')).length⟩

theorem offset_after_append (before cs : List Char) :
    (after (before ++ cs)).offset = (after before).offset + (String.ofList cs).utf8ByteSize := by
  simp [after, String.ofList_append, String.utf8ByteSize_append]

theorem next_after (before : List Char) (c : Char) :
    (after before).next c = after (before ++ [c]) := by
  have offset : (after (before ++ [c])).offset = (after before).offset + c.utf8Size := by
    rw [offset_after_append]
    simp
  rw [next]
  split
  · rename_i newline
    subst newline
    refine Position.mk.injEq .. ▸ ⟨offset.symm, ?_, ?_⟩
    · simp [after, Nat.add_assoc]
    · simp
  · rename_i other
    refine Position.mk.injEq .. ▸ ⟨offset.symm, ?_, ?_⟩
    · simp [after, other]
    · simp [after, other, Nat.add_assoc]

theorem advance_after (cs : List Char) :
    ∀ before, (after before).advance cs = after (before ++ cs) := by
  induction cs with
  | nil =>
    intro before
    rw [List.append_nil]
    rfl
  | cons c cs ih =>
    intro before
    show ((after before).next c).advance cs = _
    rw [next_after, ih, List.append_assoc]
    rfl

/-- Neither the line nor the column exceeds the characters before by more than one. -/
theorem after_le (before : List Char) :
    (after before).line ≤ before.length + 1 ∧ (after before).column ≤ before.length + 1 := by
  have newlines : before.count '\n' ≤ before.length := List.count_le_length
  have since : (before.reverse.takeWhile (· ≠ '\n')).length ≤ before.length := by
    have short := (List.takeWhile_sublist (l := before.reverse) (· ≠ '\n')).length_le
    rwa [List.length_reverse] at short
  simp only [after]
  omega

/-- What follows a text and a newline stands as many bytes and lines further on as these have, in
the same column. -/
theorem shift_afterLine_apply (first : String) (p : Position) :
    (afterLine first).shift p =
      ⟨first.utf8ByteSize + 1 + p.offset, first.toList.count '\n' + 1 + p.line, p.column⟩ := by
  have place : afterLine first = .after (first.toList ++ ['\n']) := advance_after _ []
  have newline : "\n".utf8ByteSize = 1 := rfl
  rw [place, shift, offset_after_append]
  simp [after, newline]

end Position

/-! ## Layout -/

/-- Blanks and comments, with `rest` after them.  A comment reaches from `//` to just before a
newline or the end of the text. -/
inductive Layout (rest : List Char) : List Char → Prop
  | nil : Layout rest []
  | blank {c : Char} {gap : List Char} : isSpace c → Layout rest gap → Layout rest (c :: gap)
  | comment {body gap : List Char} : '\n' ∉ body → (∀ c ∈ (gap ++ rest).head?, c = '\n') →
      Layout rest gap → Layout rest ('/' :: '/' :: (body ++ gap))

/-- A comment goes on up to the newline, and layout from there. -/
theorem splitLayout_comment (cs : List Char) :
    splitLayout true cs =
      (cs.takeWhile (· ≠ '\n') ++ (splitLayout false (cs.dropWhile (· ≠ '\n'))).1,
        (splitLayout false (cs.dropWhile (· ≠ '\n'))).2) := by
  induction cs with
  | nil => rfl
  | cons c cs ih =>
    by_cases newline : c = '\n'
    · simp [splitLayout, newline, isSpace]
    · simp [splitLayout, newline, ih]

theorem head?_dropWhile_newline (cs : List Char) :
    ∀ c ∈ (cs.dropWhile (· ≠ '\n')).head?, c = '\n' := by
  induction cs with
  | nil => simp
  | cons c cs ih =>
    rw [List.dropWhile_cons]
    split
    · exact ih
    · simp_all

/-- What is split off in front of the rest is layout. -/
theorem layout_splitLayout (cs : List Char) :
    Layout (splitLayout false cs).2 (splitLayout false cs).1 := by
  -- a comment is passed as a whole, so what is left may be shorter by more than one character
  induction length : cs.length using Nat.strongRecOn generalizing cs with
  | ind n ih =>
    cases cs with
    | nil => exact .nil
    | cons c cs =>
      rw [splitLayout, if_neg Bool.false_ne_true]
      split
      · rename_i space
        exact .blank space (ih _ (by simp [← length]) cs rfl)
      · split
        · rename_i slashes
          obtain ⟨rfl, second⟩ := slashes
          obtain ⟨cs, rfl⟩ := List.head?_eq_some_iff.1 second
          have shorter : (cs.dropWhile (· ≠ '\n')).length < n := by
            have dropped := Lexeme.length_dropWhile_le (· ≠ '\n') cs
            simp only [List.length_cons] at length
            omega
          have comment := splitLayout_comment ('/' :: cs)
          simp only [List.takeWhile_cons, List.dropWhile_cons] at comment
          simp only [comment]
          refine .comment (fun inside => ?_) ?_ (ih _ shorter _ rfl)
          · have plain := List.all_eq_true.1 List.all_takeWhile _ inside
            exact absurd rfl (of_decide_eq_true plain)
          · rw [splitLayout_append]
            exact head?_dropWhile_newline cs
        · exact .nil

/-! ## Spellings -/

/-- How a token is written: its text, in quotes if it is a string. -/
def Token.spelling (t : Token) : List Char :=
  if t.kind = .string then '"' :: (t.text.toList ++ ['"']) else t.text.toList

namespace Lexeme

theorem spelling_of_ne {l : Lexeme} (other : l.kind ≠ .string) (pos : Position) :
    Token.spelling ⟨l.kind, l.text, pos⟩ = l.spelling := by
  simp [Token.spelling, text, other]

theorem kind_number_ne (c : Char) (cs : List Char) : (number c cs).kind ≠ .string := by
  unfold number
  split
  · split <;> exact nofun
  · exact nofun

theorem kind_word_ne (c : Char) (cs : List Char) : (word c cs).kind ≠ .string := by
  show (Token.keyword? (String.ofList (c :: cs.takeWhile isLetter))).getD .identifier ≠ _
  cases reserved : Token.keyword? (String.ofList (c :: cs.takeWhile isLetter)) with
  | none => exact nofun
  | some kind => exact (keyword?_ne reserved).2.2.2

theorem kind_symbol_ne (c : Char) (cs : List Char) : (symbol c cs).kind ≠ .string := by
  unfold symbol
  split
  · rename_i joined
    unfold withEquals? at joined
    split at joined <;> cases joined <;> exact nofun
  · unfold single?
    split <;> exact nofun

theorem spelling_quoted (cs : List Char) (pos : Position) :
    Token.spelling ⟨(quoted cs).kind, (quoted cs).text, pos⟩ = (quoted cs).spelling := by
  rw [quoted]
  split
  · exact spelling_of_ne (show Token.Kind.illegal ≠ .string by decide) pos
  · rename_i close rest left
    have quote : close = '"' := by
      have stops := List.head?_dropWhile_not (· ≠ '"') cs
      rw [left] at stops
      simpa using stops
    simp [Token.spelling, text, quote]

/-- The token of a lexeme is written as the lexeme is spelled. -/
theorem spelling_first (c : Char) (cs : List Char) (pos : Position) :
    Token.spelling ⟨(first c cs).kind, (first c cs).text, pos⟩ = (first c cs).spelling := by
  unfold first
  split
  · exact spelling_of_ne (kind_number_ne c cs) pos
  · split
    · exact spelling_of_ne (kind_word_ne c cs) pos
    · split
      · exact spelling_quoted cs pos
      · exact spelling_of_ne (kind_symbol_ne c cs) pos

end Lexeme

/-! ## Tiling -/

/-- The tokens of a text that follows `before`: each stands after a gap of layout, and the end of
input after the last gap. -/
inductive Tiles : (before : List Char) → List Token → (text : List Char) → Prop
  | finish {before gap : List Char} {t : Token} : Layout [] gap →
      t = ⟨.endOfInput, "", .after (before ++ gap)⟩ → Tiles before [t] gap
  | token {before gap rest : List Char} {t : Token} {ts : List Token} : t.kind ≠ .endOfInput →
      Layout (t.spelling ++ rest) gap → t.pos = .after (before ++ gap) → t.spelling ≠ [] →
      Tiles (before ++ gap ++ t.spelling) ts rest →
      Tiles before (t :: ts) (gap ++ t.spelling ++ rest)

namespace Cursor

variable {c : Cursor} {before : List Char}

theorem pos_skipLayout (start : c.pos = .after before) :
    c.skipLayout.pos = .after (before ++ (splitLayout false c.rest).1) := by
  show c.pos.advance _ = _
  rw [start, Position.advance_after]

/-- The end of input is found where only layout is left. -/
theorem tiles_end (ended : c.next.1.kind = .endOfInput) (start : c.pos = .after before) :
    Tiles before [c.next.1] c.rest := by
  have layout := layout_splitLayout c.rest
  have whole := splitLayout_append false c.rest
  cases left : c.skipLayout.rest with
  | nil =>
    have none : (splitLayout false c.rest).2 = [] := left
    rw [none, List.append_nil] at whole
    rw [none, whole] at layout
    refine .finish layout ?_
    rw [next_of_nil left, pos_skipLayout start, whole]
  | cons ch cs =>
    rw [next_of_cons left] at ended
    exact absurd ended (Lexeme.lexed_first ch cs c.skipLayout.pos).not_end

/-- A token is found after a gap of layout, and the rest follows its spelling. -/
theorem tiles_token (inside : c.next.1.kind ≠ .endOfInput) (start : c.pos = .after before)
    {ts : List Token}
    (later : ∀ {read : List Char}, c.next.2.pos = .after read → Tiles read ts c.next.2.rest) :
    Tiles before (c.next.1 :: ts) c.rest := by
  have layout := layout_splitLayout c.rest
  have whole := splitLayout_append false c.rest
  cases left : c.skipLayout.rest with
  | nil =>
    rw [next_of_nil left] at inside
    exact absurd rfl inside
  | cons ch cs =>
    have rest : (splitLayout false c.rest).2 = ch :: cs := left
    have spelled : c.next.1.spelling ++ c.next.2.rest = ch :: cs := by
      rw [next_of_cons left, Lexeme.spelling_first, Lexeme.spelling_append_rest]
    have place : c.next.1.pos = .after (before ++ (splitLayout false c.rest).1) := by
      rw [next_of_cons left]
      exact pos_skipLayout start
    have further : c.next.2.pos = c.next.1.pos.advance c.next.1.spelling := by
      rw [next_of_cons left, Lexeme.spelling_first]
    rw [rest, ← spelled] at layout whole
    rw [← whole, ← List.append_assoc]
    refine .token inside layout place ?_ (later ?_)
    · -- a lexeme takes up its first character at least
      intro none
      have fewer := Lexeme.length_rest_first_le ch cs
      rw [none, List.nil_append, next_of_cons left] at spelled
      have same : (Lexeme.first ch cs).rest = ch :: cs := spelled
      rw [same, List.length_cons] at fewer
      omega
    · rw [further, place, Position.advance_after]

theorem tiles_scan (c : Cursor) (before : List Char) (start : c.pos = .after before) :
    Tiles before (c.scan.tokens ++ [c.scan.finish]) c.rest := by
  fun_induction Cursor.scan c generalizing before with
  | case1 c step ended => exact tiles_end ended start
  | case2 c step inside shorter rest ih => exact tiles_token inside start (ih _)

end Cursor

/-! ## What tiling says -/

namespace Tiles

variable {before text : List Char} {ts : List Token}

/-- No token stands before the text. -/
theorem offset_le (h : Tiles before ts text) :
    ∀ t ∈ ts, (Position.after before).offset ≤ t.pos.offset := by
  induction h with
  | finish _ last =>
    intro t member
    rw [List.mem_singleton.1 member, last, Position.offset_after_append]
    exact Nat.le_add_right _ _
  | @token before gap rest t ts _ _ place _ _ ih =>
    have here : (Position.after before).offset ≤ t.pos.offset := by
      rw [place, Position.offset_after_append]
      exact Nat.le_add_right _ _
    refine List.forall_mem_cons.2 ⟨here, fun u later => Nat.le_trans ?_ (ih u later)⟩
    rw [List.append_assoc, Position.offset_after_append]
    exact Nat.le_add_right _ _

/-- Each token stands before all that come after it. -/
theorem offset_lt (h : Tiles before ts text) :
    ts.Pairwise fun t u => t.pos.offset < u.pos.offset := by
  induction h with
  | finish _ _ => exact List.pairwise_singleton _ _
  | @token before gap rest t ts _ _ place spelled later ih =>
    refine List.pairwise_cons.2 ⟨fun u member => ?_, ih⟩
    have further := later.offset_le u member
    rw [Position.offset_after_append, ← place] at further
    have filled : 0 < (String.ofList t.spelling).utf8ByteSize := by
      rw [Nat.pos_iff_ne_zero, Ne, String.utf8ByteSize_eq_zero_iff, ← String.toList_inj]
      simpa using spelled
    omega

/-- A token is found in the text where it says it stands. -/
theorem span (h : Tiles before ts text) : ∀ t ∈ ts, ∃ front back,
    before ++ text = front ++ t.spelling ++ back ∧ t.pos = .after front := by
  induction h with
  | @finish before gap t _ last =>
    intro u member
    obtain rfl := List.mem_singleton.1 member
    refine ⟨before ++ gap, [], ?_, by rw [last]⟩
    simp [last, Token.spelling]
  | @token before gap rest t ts _ _ place _ _ ih =>
    refine List.forall_mem_cons.2 ⟨⟨before ++ gap, rest, by simp, place⟩, fun u later => ?_⟩
    obtain ⟨front, back, whole, there⟩ := ih u later
    exact ⟨front, back, by rw [← whole]; simp, there⟩

/-- The end of input comes once, and last. -/
theorem ends (h : Tiles before ts text) : ∃ tokens,
    ts = tokens ++ [⟨.endOfInput, "", .after (before ++ text)⟩] ∧
      ∀ t ∈ tokens, t.kind ≠ .endOfInput := by
  induction h with
  | finish _ last => exact ⟨[], by rw [last]; rfl, by simp⟩
  | @token before gap rest t ts inside _ _ _ _ ih =>
    obtain ⟨tokens, rfl, others⟩ := ih
    exact ⟨t :: tokens, by simp, List.forall_mem_cons.2 ⟨inside, others⟩⟩

end Tiles

theorem tiles_tokenize (source : String) : Tiles [] (tokenize source) source.toList :=
  Cursor.tiles_scan (Cursor.ofString source) [] rfl

/-- The end of input stands after all of the text. -/
theorem finish_scan (source : String) :
    (scan source).finish = ⟨.endOfInput, "", .after source.toList⟩ := by
  obtain ⟨tokens, ends, -⟩ := (tiles_tokenize source).ends
  obtain ⟨-, same⟩ := List.append_inj' ends rfl
  exact List.singleton_inj.1 same

/-- The bytes from where `cs` stands, as many as it has, are `cs`. -/
theorem extract_after {source : String} {before cs rest : List Char}
    (whole : source.toList = before ++ cs ++ rest) :
    source.toUTF8.extract (Position.after before).offset
      ((Position.after before).offset + (String.ofList cs).utf8ByteSize) =
        (String.ofList cs).toUTF8 := by
  have split : source = String.ofList before ++ (String.ofList cs ++ String.ofList rest) := by
    rw [← String.toList_inj]
    simp [whole]
  show source.toByteArray.extract ((String.ofList before).toByteArray.size + 0)
    ((String.ofList before).toByteArray.size + (String.ofList cs).toByteArray.size) = _
  rw [split, String.toByteArray_append, String.toByteArray_append,
    ByteArray.extract_append_size_add]
  exact ByteArray.extract_append_eq_left rfl

/-- **Tokens tile the source.**  Gaps of layout and the spellings of the tokens, in turn, are the
text; offsets increase; the end of input comes once, last and at the end of the text; and each token
is found, byte for byte, at the position it has, which is that of the text before it.  Lines and
columns of a text of fewer than `2 ^ 32 - 1` characters fit in 32 bits. -/
theorem tokens_tile (source : String) :
    Tiles [] (tokenize source) source.toList ∧
      ((tokenize source).Pairwise fun t u => t.pos.offset < u.pos.offset) ∧
      (∃ tokens finish, tokenize source = tokens ++ [finish] ∧
        (∀ t ∈ tokens, t.kind ≠ .endOfInput) ∧ finish.kind = .endOfInput ∧ finish.text = "" ∧
        finish.pos.offset = source.utf8ByteSize) ∧
      (∀ t ∈ tokenize source, ∃ before rest, source.toList = before ++ t.spelling ++ rest ∧
        t.pos = .after before ∧
        source.toUTF8.extract t.pos.offset
          (t.pos.offset + (String.ofList t.spelling).utf8ByteSize) =
            (String.ofList t.spelling).toUTF8) ∧
      (source.length < UInt32.size - 1 →
        ∀ t ∈ tokenize source, t.pos.line < UInt32.size ∧ t.pos.column < UInt32.size) := by
  have tiles := tiles_tokenize source
  have spans := tiles.span
  refine ⟨tiles, tiles.offset_lt, ?_, fun t member => ?_, fun short t member => ?_⟩
  · obtain ⟨tokens, ends, others⟩ := tiles.ends
    refine ⟨tokens, _, ends, others, rfl, rfl, ?_⟩
    simp [Position.after]
  · obtain ⟨before, rest, whole, place⟩ := spans t member
    refine ⟨before, rest, whole, place, ?_⟩
    rw [place]
    exact extract_after whole
  · obtain ⟨before, rest, whole, place⟩ := spans t member
    have bound := Position.after_le before
    have within : before.length ≤ source.length := by
      rw [← String.length_toList, ← List.nil_append source.toList, whole]
      simp
    rw [place]
    omega

/-- A comment, a line break within a string and characters of two bytes, up to an unknown one. -/
theorem tokens_tile_broken :
    "// ñ\nx = \"é\n\"; é".length < UInt32.size - 1 ∧
      ∀ t ∈ tokenize "// ñ\nx = \"é\n\"; é",
        t.pos.line < UInt32.size ∧ t.pos.column < UInt32.size :=
  ⟨by decide, (tokens_tile "// ñ\nx = \"é\n\"; é").2.2.2.2 (by decide)⟩

end Guion
