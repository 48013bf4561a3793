import Guion.Proofs.Token.Lexed

/-!
# Scanning spellings

How a spelling at the front of a text is scanned: as the token that it spells, from any position,
and with the text after it left, as long as that text does not go on with the spelling.  There is
one equation for each class of spellings.
-/

set_option autoImplicit false

namespace Guion

/-- The tokens of a text that starts at `pos`. -/
def tokensAt (pos : Position) (cs : List Char) : List Token := (Cursor.mk pos cs).scan.tokens

theorem tokensAt_start (source : String) : tokensAt .start source.toList = (scan source).tokens :=
  rfl

/-! ## Layout -/

theorem Cursor.scan_congr {c d : Cursor} (h : c.next = d.next) : c.scan = d.scan := by
  rw [Cursor.scan, Cursor.scan.eq_def d]
  simp only [h]

theorem Cursor.scan_nil (pos : Position) : (Cursor.mk pos []).scan.tokens = [] := by
  have ended : (Cursor.mk pos []).next.1.kind = .endOfInput := rfl
  rw [Cursor.scan, dif_pos ended]

/-- Blanks before a token are skipped. -/
theorem tokensAt_space {c : Char} (h : isSpace c) (pos : Position) (cs : List Char) :
    tokensAt pos (c :: cs) = tokensAt (pos.next c) cs := by
  have skipped : (Cursor.mk pos (c :: cs)).skipLayout = (Cursor.mk (pos.next c) cs).skipLayout := by
    simp only [Cursor.skipLayout, splitLayout, h, if_true, Bool.false_eq_true, if_false]
    rfl
  have same : (Cursor.mk pos (c :: cs)).next = (Cursor.mk (pos.next c) cs).next := by
    simp only [Cursor.next, skipped]
  exact congrArg Scanned.tokens (Cursor.scan_congr same)

/-- Text that does not start with layout starts with its longest lexeme. -/
theorem tokensAt_first {c : Char} {cs : List Char} (inside : isSpace c = false)
    (no_comment : ¬ (c = '/' ∧ cs.head? = some '/')) (pos : Position) :
    tokensAt pos (c :: cs) = ⟨(Lexeme.first c cs).kind, (Lexeme.first c cs).text, pos⟩ ::
      tokensAt (pos.advance (Lexeme.first c cs).spelling) (Lexeme.first c cs).rest := by
  have layout : splitLayout false (c :: cs) = ([], c :: cs) := by
    rw [splitLayout, if_neg (by decide), if_neg (by rw [inside]; decide), if_neg no_comment]
  have next : (Cursor.mk pos (c :: cs)).next =
      (⟨(Lexeme.first c cs).kind, (Lexeme.first c cs).text, pos⟩,
        ⟨pos.advance (Lexeme.first c cs).spelling, (Lexeme.first c cs).rest⟩) := by
    simp only [Cursor.next, Cursor.skipLayout, layout]
    rfl
  -- a lexeme is never the end of input, so scanning goes on after it
  have before : (Cursor.mk pos (c :: cs)).next.1.kind ≠ .endOfInput := by
    rw [next]
    exact (Lexeme.lexed_first c cs pos).not_end
  rw [tokensAt, Cursor.scan, dif_neg before]
  simp only [next]
  rfl

theorem tokensAt_of_first {c : Char} {cs rest : List Char} {kind : Token.Kind}
    {spelling : List Char} (inside : isSpace c = false)
    (no_comment : ¬ (c = '/' ∧ cs.head? = some '/'))
    (found : Lexeme.first c cs = ⟨kind, spelling, rest⟩) (other : kind ≠ .string)
    (pos : Position) :
    tokensAt pos (c :: cs) =
      ⟨kind, String.ofList spelling, pos⟩ :: tokensAt (pos.advance spelling) rest := by
  have text : (Lexeme.first c cs).text = String.ofList spelling := by
    rw [found]
    exact if_neg other
  rw [tokensAt_first inside no_comment, text, found]

/-! ## Symbols -/

/-- A character that is a token by itself starts no other lexeme. -/
theorem plain_of_single? {c : Char} {kind : Token.Kind} (h : Lexeme.single? c = some kind) :
    isSpace c = false ∧ Number.isDigit c = false ∧ isLetter c = false ∧ c ≠ '"' := by
  unfold Lexeme.single? at h
  split at h <;> first | cases h; done | decide

theorem tokensAt_symbol {c : Char} {kind : Token.Kind} {rest : List Char}
    (single : Lexeme.single? c = some kind)
    (alone : Lexeme.withEquals? c = none ∨ rest.head? ≠ some '=')
    (no_comment : ¬ (c = '/' ∧ rest.head? = some '/')) (pos : Position) :
    tokensAt pos (c :: rest) =
      ⟨kind, String.ofList [c], pos⟩ :: tokensAt (pos.advance [c]) rest := by
  obtain ⟨space, digit, letter, quote⟩ := plain_of_single? single
  have symbol : Lexeme.first c rest = ⟨kind, [c], rest⟩ := by
    rw [Lexeme.first, if_neg (by rw [digit]; decide), if_neg (by rw [letter]; decide), if_neg quote]
    unfold Lexeme.symbol
    split
    · rename_i joined
      -- an equals sign after it would make another symbol of it
      rcases alone with alone | alone
      · rw [alone] at joined
        cases joined
      · exact absurd rfl alone
    · rw [single]
      rfl
  have other : kind ≠ .string := by
    rintro rfl
    unfold Lexeme.single? at single
    split at single <;> cases single
  exact tokensAt_of_first space no_comment symbol other pos

/-- A character that is a token by itself and that no equals sign joins. -/
theorem tokensAt_mark (c : Char) {kind : Token.Kind} (single : Lexeme.single? c = some kind)
    (alone : Lexeme.withEquals? c = none ∧ c ≠ '/') (pos : Position) (rest : List Char) :
    tokensAt pos (c :: rest) =
      ⟨kind, String.ofList [c], pos⟩ :: tokensAt (pos.advance [c]) rest :=
  tokensAt_symbol single (.inl alone.1) (fun comment => alone.2 comment.1) pos

theorem tokensAt_pair {c : Char} {kind : Token.Kind} {rest : List Char}
    (joined : Lexeme.withEquals? c = some kind) (pos : Position) :
    tokensAt pos (c :: '=' :: rest) =
      ⟨kind, String.ofList [c, '='], pos⟩ :: tokensAt (pos.advance [c, '=']) rest := by
  have plain : isSpace c = false ∧ Number.isDigit c = false ∧ isLetter c = false ∧ c ≠ '"' ∧
      c ≠ '/' ∧ kind ≠ .string := by
    unfold Lexeme.withEquals? at joined
    split at joined <;> cases joined <;> decide
  obtain ⟨space, digit, letter, quote, slash, other⟩ := plain
  have symbol : Lexeme.first c ('=' :: rest) = ⟨kind, [c, '='], rest⟩ := by
    rw [Lexeme.first, if_neg (by rw [digit]; decide), if_neg (by rw [letter]; decide), if_neg quote]
    unfold Lexeme.symbol
    rw [joined]
    rfl
  exact tokensAt_of_first space (fun comment => slash comment.1) symbol other pos

/-! ## Words -/

/-- No letter is a digit. -/
theorem isDigit_of_isLetter {c : Char} (h : isLetter c) : Number.isDigit c = false := by
  cases digit : Number.isDigit c with
  | false => rfl
  | true =>
    simp only [Number.isDigit, Bool.and_eq_true, decide_eq_true_eq, Char.le_def,
      UInt32.le_iff_toNat_le] at digit
    have nine : '9'.val.toNat = 57 := rfl
    simp only [isLetter, Bool.or_eq_true, Bool.and_eq_true, decide_eq_true_eq, Char.le_def,
      UInt32.le_iff_toNat_le] at h
    have lower : 'a'.val.toNat = 97 := rfl
    have upper : 'A'.val.toNat = 65 := rfl
    rcases h with ((h | h) | rfl) | h
    · omega
    · omega
    · exact absurd digit.2 (by decide)
    · have listed : c ∈ "áéíóúÁÉÍÓÚñÑ".toList := by simpa using h
      have none : "áéíóúÁÉÍÓÚñÑ".toList.all fun d => 57 < d.val.toNat := by decide
      have above := of_decide_eq_true (List.all_eq_true.1 none c listed)
      omega

/-- Neither blanks nor slashes belong to a class that leaves them out. -/
theorem plain_of_class {p : Char → Bool} {c : Char} (h : p c)
    (without : [' ', '\t', '\r', '\n', '/'].all (!p ·)) : isSpace c = false ∧ c ≠ '/' := by
  have other {d : Char} (listed : d ∈ [' ', '\t', '\r', '\n', '/']) : c ≠ d := by
    rintro rfl
    have outside := List.all_eq_true.1 without c listed
    rw [h] at outside
    cases outside
  refine ⟨?_, other (by decide)⟩
  simp only [isSpace, Bool.or_eq_false_iff, decide_eq_false_iff_not]
  exact ⟨⟨⟨other (by decide), other (by decide)⟩, other (by decide)⟩, other (by decide)⟩

/-- The next character does not go on with a run of characters in `p`. -/
def Apart (p : Char → Bool) (rest : List Char) : Prop := ∀ c ∈ rest.head?, p c = false

theorem takeWhile_append_of_apart {p : Char → Bool} {run rest : List Char} (all : ∀ c ∈ run, p c)
    (apart : Apart p rest) : (run ++ rest).takeWhile p = run := by
  rw [List.takeWhile_append_of_pos all]
  cases rest with
  | nil => simp
  | cons c cs => simp [apart c rfl]

theorem dropWhile_append_of_apart {p : Char → Bool} {run rest : List Char} (all : ∀ c ∈ run, p c)
    (apart : Apart p rest) : (run ++ rest).dropWhile p = rest := by
  rw [List.dropWhile_append_of_pos all]
  cases rest with
  | nil => rfl
  | cons c cs => simp [apart c rfl]

/-- Letters are scanned as a reserved word or as an identifier. -/
theorem tokensAt_word {text : String} {rest : List Char} (some_letter : text.toList ≠ [])
    (letters : ∀ c ∈ text.toList, isLetter c) (apart : Apart isLetter rest) (pos : Position) :
    tokensAt pos (text.toList ++ rest) =
      ⟨(Token.keyword? text).getD .identifier, text, pos⟩ ::
        tokensAt (pos.advance text.toList) rest := by
  obtain ⟨c, cs, spelled⟩ := List.exists_cons_of_ne_nil some_letter
  rw [spelled] at letters
  have first : isLetter c := letters c List.mem_cons_self
  have others : ∀ d ∈ cs, isLetter d := fun d member => letters d (List.mem_cons_of_mem c member)
  have whole : String.ofList (c :: cs) = text := by rw [← spelled, String.ofList_toList]
  obtain ⟨space, slash⟩ := plain_of_class first (by decide)
  have word : Lexeme.first c (cs ++ rest) =
      ⟨(Token.keyword? text).getD .identifier, c :: cs, rest⟩ := by
    rw [Lexeme.first, if_neg (by rw [isDigit_of_isLetter first]; decide), if_pos first, Lexeme.word,
      takeWhile_append_of_apart others apart, dropWhile_append_of_apart others apart, whole]
  -- the text of a word is its spelling: only strings drop their quotes
  have other : (Token.keyword? text).getD .identifier ≠ .string := by
    cases reserved : Token.keyword? text with
    | none => decide
    | some kind => exact (Lexeme.keyword?_ne reserved).2.2.2
  rw [spelled, List.cons_append, ← whole]
  exact tokensAt_of_first space (fun comment => slash comment.1) (whole ▸ word) (whole ▸ other) pos

/-- Reserved words are runs of letters. -/
theorem letters_of_keyword? {text : String} {kind : Token.Kind}
    (reserved : Token.keyword? text = some kind) :
    text.toList ≠ [] ∧ ∀ c ∈ text.toList, isLetter c := by
  have every : ∀ entry ∈ Token.keywords,
      entry.1.toList ≠ [] ∧ entry.1.toList.all isLetter := by decide
  obtain ⟨some_letter, letters⟩ := every (text, kind) (Lexeme.mem_keywords reserved)
  exact ⟨some_letter, List.all_eq_true.1 letters⟩

theorem tokensAt_keyword (text : String) {kind : Token.Kind} {rest : List Char}
    (reserved : Token.keyword? text = some kind) (apart : Apart isLetter rest) (pos : Position) :
    tokensAt pos (text.toList ++ rest) =
      ⟨kind, text, pos⟩ :: tokensAt (pos.advance text.toList) rest := by
  obtain ⟨some_letter, letters⟩ := letters_of_keyword? reserved
  have word := tokensAt_word some_letter letters apart pos
  rw [reserved] at word
  exact word

/-! ## Literals -/

/-- Digits are scanned as an integer, unless a point follows them. -/
theorem tokensAt_digits {text : String} {rest : List Char} (digits : DigitRun text.toList)
    (apart : Apart Number.isDigit rest) (no_point : rest.head? ≠ some '.') (pos : Position) :
    tokensAt pos (text.toList ++ rest) =
      ⟨.integer, text, pos⟩ :: tokensAt (pos.advance text.toList) rest := by
  obtain ⟨some_digit, all⟩ := digits
  obtain ⟨c, cs, spelled⟩ := List.exists_cons_of_ne_nil some_digit
  rw [spelled, List.all_eq_true] at all
  have first : Number.isDigit c := all c List.mem_cons_self
  have others : ∀ d ∈ cs, Number.isDigit d := fun d member => all d (List.mem_cons_of_mem c member)
  have whole : String.ofList (c :: cs) = text := by rw [← spelled, String.ofList_toList]
  obtain ⟨space, slash⟩ := plain_of_class first (by decide)
  have number : Lexeme.first c (cs ++ rest) = ⟨.integer, c :: cs, rest⟩ := by
    rw [Lexeme.first, if_pos first]
    rw [Lexeme.number]
    rw [takeWhile_append_of_apart others apart, dropWhile_append_of_apart others apart]
    -- the scanner looks for a point right after the digits
    split
    · exact absurd rfl no_point
    · rfl
  rw [spelled, List.cons_append, ← whole]
  exact tokensAt_of_first space (fun comment => slash comment.1) number (by decide) pos

/-- A text in quotes is scanned as a string, if it has no quote in it. -/
theorem tokensAt_quoted {text : String} {rest : List Char} (plain : '"' ∉ text.toList)
    (pos : Position) :
    tokensAt pos ('"' :: (text.toList ++ '"' :: rest)) =
      ⟨.string, text, pos⟩ :: tokensAt (pos.advance ('"' :: text.toList ++ ['"'])) rest := by
  have all : ∀ c ∈ text.toList, (decide (c ≠ '"')) = true := by
    intro c member
    refine decide_eq_true ?_
    rintro rfl
    exact plain member
  have closing : Apart (fun c => decide (c ≠ '"')) ('"' :: rest) := by
    rintro c ⟨⟩
    rfl
  have quoted : Lexeme.first '"' (text.toList ++ '"' :: rest) =
      ⟨.string, '"' :: text.toList ++ ['"'], rest⟩ := by
    rw [Lexeme.first, if_neg (by decide), if_neg (by decide), if_pos rfl]
    rw [Lexeme.quoted]
    rw [takeWhile_append_of_apart all closing, dropWhile_append_of_apart all closing]
  have spelled : (Lexeme.first '"' (text.toList ++ '"' :: rest)).text = text := by
    rw [quoted]
    simp [Lexeme.text]
  rw [tokensAt_first rfl fun comment => absurd comment.1 (by decide), spelled, quoted]

end Guion
