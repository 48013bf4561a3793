import Guion.Proofs.Token.Tiling

/-!
# Maximal munch

Scanning repeats two steps: the longest gap of blanks and comments is dropped, and the longest
spelling of a token is taken (`maximal_munch`).

`Gap`, `Spells` and `Munched` say this without the scanner: what a gap is, which texts spell which
tokens, and what it is to go on taking the longest of each.  Each spelling at the front of a text is
shorter than the lexeme that the scanner cuts off, or is that lexeme (`Spells.covered`), so the
lexeme is the longest, and there is only one sequence of tokens to come to.
-/

set_option autoImplicit false

namespace Guion

namespace Munch

/-! ## Lexical classes -/

/-- Letters of words. -/
def Letter (c : Char) : Prop :=
  ('a' ≤ c ∧ c ≤ 'z') ∨ ('A' ≤ c ∧ c ≤ 'Z') ∨
    c ∈ ['_', 'á', 'é', 'í', 'ó', 'ú', 'Á', 'É', 'Í', 'Ó', 'Ú', 'ñ', 'Ñ']

/-- Digits of numbers. -/
def Digit (c : Char) : Prop := '0' ≤ c ∧ c ≤ '9'

/-- Blanks between tokens. -/
def Blank (c : Char) : Prop := c ∈ [' ', '\t', '\r', '\n']

/-- One or more characters of a class. -/
def Run (P : Char → Prop) (cs : List Char) : Prop := cs ≠ [] ∧ ∀ c ∈ cs, P c

/-- Blanks and comments, which go from `//` on within a line. -/
inductive Gap : List Char → Prop
  | nil : Gap []
  | blank {c : Char} {gap : List Char} : Blank c → Gap gap → Gap (c :: gap)
  | comment {body gap : List Char} : '\n' ∉ body → Gap gap → Gap ('/' :: '/' :: (body ++ gap))

/-- The kind of a word: that of the reserved word it is, or else an identifier. -/
inductive Named (word : String) : Token.Kind → Prop
  | reserved {kind : Token.Kind} : (word, kind) ∈ Token.keywords → Named word kind
  | free : (∀ kind, (word, kind) ∉ Token.keywords) → Named word .identifier

/-- Operators and punctuation. -/
def marks : List (String × Token.Kind) :=
  [("=", .assign), ("==", .equal), ("!=", .notEqual), ("<", .less), ("<=", .lessEqual),
   (">", .greater), (">=", .greaterEqual), ("+", .plus), ("-", .minus), ("*", .star),
   ("/", .slash), ("!", .bang), ("(", .leftParen), (")", .rightParen), ("\x7b", .leftCurly),
   ("\x7d", .rightCurly), ("[", .leftBracket), ("]", .rightBracket), (",", .comma),
   (";", .semicolon), (":", .colon), (".", .dot)]

/-- The spelling of a token with its kind and text, in front of `rest`. -/
inductive Spells (rest : List Char) : Token.Kind → String → List Char → Prop
  | word {cs : List Char} {kind : Token.Kind} : Run Letter cs → Named (.ofList cs) kind →
      Spells rest kind (.ofList cs) cs
  | integer {cs : List Char} : Run Digit cs → Spells rest .integer (.ofList cs) cs
  | float {whole fraction : List Char} : Run Digit whole → Run Digit fraction →
      Spells rest .float (.ofList (whole ++ '.' :: fraction)) (whole ++ '.' :: fraction)
  /-- Digits and a point without a fraction. -/
  | point {whole : List Char} : Run Digit whole →
      Spells rest .illegal (.ofList (whole ++ ['.'])) (whole ++ ['.'])
  | string {body : List Char} : '"' ∉ body →
      Spells rest .string (.ofList body) ('"' :: (body ++ ['"']))
  /-- A string that is not closed takes all there is. -/
  | unclosed {body : List Char} : '"' ∉ body → rest = [] →
      Spells rest .illegal (.ofList ('"' :: body)) ('"' :: body)
  | mark {text : String} {kind : Token.Kind} : (text, kind) ∈ marks →
      Spells rest kind text text.toList

/-! ## The longest of each -/

/-- The text is `front` and `rest`, and no longer front of it with its rest is in `P`. -/
structure Longest (P : List Char → List Char → Prop) (text front rest : List Char) : Prop where
  whole : text = front ++ rest
  here : P front rest
  longest : ∀ front' rest', text = front' ++ rest' → P front' rest' → front'.length ≤ front.length

theorem Longest.unique {P : List Char → List Char → Prop} {text front rest front' rest' : List Char}
    (h : Longest P text front rest) (h' : Longest P text front' rest') :
    front = front' ∧ rest = rest' := by
  have le := h.longest front' rest' h'.whole h'.here
  have ge := h'.longest front rest h.whole h.here
  exact List.append_inj (h.whole.symm.trans h'.whole) (Nat.le_antisymm ge le)

/-- The token taken off the front of `text`: the longest spelling, or a single character where
nothing is spelled. -/
inductive Takes (text : List Char) : Token.Kind → String → List Char → List Char → Prop
  | spelled {kind : Token.Kind} {word : String} {spelling rest : List Char} :
      Longest (fun front rest => ∃ kind word, Spells rest kind word front) text spelling rest →
      Spells rest kind word spelling → Takes text kind word spelling rest
  | other {c : Char} {rest : List Char} : text = c :: rest →
      (∀ front rest kind word, text = front ++ rest → ¬ Spells rest kind word front) →
      Takes text .illegal (.ofList [c]) [c] rest

/-- The tokens of a text that follows `before`, the end of input last. -/
inductive Munched : (before text : List Char) → List Token → Prop
  | finish {before text gap : List Char} : Longest (fun front _ => Gap front) text gap [] →
      Munched before text [⟨.endOfInput, "", .after (before ++ gap)⟩]
  | token {before text gap left spelling rest : List Char} {kind : Token.Kind} {word : String}
      {ts : List Token} : Longest (fun front _ => Gap front) text gap left →
      Takes left kind word spelling rest → Munched (before ++ gap ++ spelling) rest ts →
      Munched before text (⟨kind, word, .after (before ++ gap)⟩ :: ts)

/-! ## The scanner's classes -/

theorem isLetter_iff (c : Char) : isLetter c = true ↔ Letter c := by
  have accented : "áéíóúÁÉÍÓÚñÑ".toList =
      ['á', 'é', 'í', 'ó', 'ú', 'Á', 'É', 'Í', 'Ó', 'Ú', 'ñ', 'Ñ'] := by decide
  simp [isLetter, Letter, accented, or_assoc]

theorem isDigit_iff (c : Char) : Number.isDigit c = true ↔ Digit c := by
  simp [Number.isDigit, Digit]

theorem isSpace_iff (c : Char) : isSpace c = true ↔ Blank c := by
  simp [isSpace, Blank, or_assoc]

theorem named_iff {word : String} {kind : Token.Kind} :
    Named word kind ↔ kind = (Token.keyword? word).getD .identifier := by
  have listed : ∀ entry ∈ Token.keywords, Token.keyword? entry.1 = some entry.2 := by decide
  constructor
  · rintro (reserved | free)
    · rw [listed _ reserved]
      rfl
    · cases found : Token.keyword? word with
      | none => rfl
      | some kind => exact absurd (Lexeme.mem_keywords found) (free kind)
  · rintro rfl
    cases found : Token.keyword? word with
    | none =>
      refine .free fun kind member => ?_
      rw [listed _ member] at found
      cases found
    | some kind => exact .reserved (Lexeme.mem_keywords found)

/-! ## Gaps -/

/-- Inside a comment or not, a gap goes no further than the layout that is split off. -/
theorem Gap.length_le {gap : List Char} (h : Gap gap) : ∀ (comment : Bool) (rest : List Char),
    gap.length ≤ (splitLayout comment (gap ++ rest)).1.length := by
  -- a comment goes on through all of its body
  have inside (body : List Char) (line : '\n' ∉ body) (rest : List Char) :
      (splitLayout true (body ++ rest)).1.length =
        body.length + (splitLayout true rest).1.length := by
    induction body with
    | nil => simp
    | cons c body ih =>
      obtain ⟨other, line⟩ := List.ne_and_not_mem_of_not_mem_cons line
      have step : (splitLayout true (c :: body ++ rest)).1 =
          c :: (splitLayout true (body ++ rest)).1 := by
        simp [splitLayout, Ne.symm other]
      rw [step, List.length_cons, List.length_cons, ih line]
      omega
  induction h with
  | nil => exact fun _ _ => Nat.zero_le _
  | @blank c gap space _ ih =>
    intro comment rest
    -- a newline ends the comment that it is in, other blanks stay inside
    cases comment with
    | true => simpa [splitLayout] using ih (c ≠ '\n') rest
    | false => simpa [splitLayout, (isSpace_iff c).2 space] using ih false rest
  | @comment body gap line _ ih =>
    intro comment rest
    have further := ih true rest
    have passed := inside ('/' :: body) (by simpa using line) (gap ++ rest)
    have opened : (splitLayout comment ('/' :: '/' :: (body ++ gap) ++ rest)).1 =
        '/' :: (splitLayout true ('/' :: body ++ (gap ++ rest))).1 := by
      cases comment <;> simp [splitLayout, isSpace]
    rw [opened]
    simp only [List.length_cons, List.length_append] at passed ⊢
    omega

/-- The layout that is split off is the longest gap. -/
theorem longest_splitLayout (text : List Char) :
    Longest (fun front _ => Gap front) text (splitLayout false text).1
      (splitLayout false text).2 := by
  have gap {rest gap : List Char} (h : Layout rest gap) : Gap gap := by
    induction h with
    | nil => exact .nil
    | blank space _ ih => exact .blank ((isSpace_iff _).1 space) ih
    | comment line _ _ ih => exact .comment line ih
  refine ⟨(splitLayout_append false text).symm, gap (layout_splitLayout text), ?_⟩
  rintro front rest rfl other
  exact other.length_le false rest

/-! ## Spellings and the lexeme that is cut off -/

/-- The spelling is shorter than the lexeme, or the token is that of the lexeme. -/
def Covers (l : Lexeme) (kind : Token.Kind) (word : String) (spelling : List Char) : Prop :=
  spelling.length < l.spelling.length ∨ kind = l.kind ∧ word = l.text ∧ spelling = l.spelling

section Covers

variable {c : Char} {cs rest : List Char}

/-- A text that starts with a run starts with the first character of the run. -/
theorem Run.eq_cons {P : Char → Prop} {run : List Char} (h : Run P run)
    (whole : c :: cs = run ++ rest) :
    ∃ ds, run = c :: ds ∧ cs = ds ++ rest ∧ ∀ d ∈ c :: ds, P d := by
  obtain ⟨d, ds, rfl⟩ := List.exists_cons_of_ne_nil h.1
  obtain ⟨rfl, rfl⟩ := List.cons.inj whole
  exact ⟨ds, rfl, rfl, h.2⟩

theorem Run.head {P : Char → Prop} {run : List Char} (h : Run P run)
    (whole : c :: cs = run ++ rest) : P c := by
  obtain ⟨ds, -, -, all⟩ := h.eq_cons whole
  exact all c List.mem_cons_self

theorem first_of_digit (digit : Digit c) (cs : List Char) :
    Lexeme.first c cs = Lexeme.number c cs := if_pos ((isDigit_iff c).2 digit)

theorem first_of_letter (letter : Letter c) (cs : List Char) :
    Lexeme.first c cs = Lexeme.word c cs := by
  have letter := (isLetter_iff c).2 letter
  rw [Lexeme.first, if_neg (by rw [isDigit_of_isLetter letter]; decide), if_pos letter]

theorem text_of_ne {l : Lexeme} (other : l.kind ≠ .string) : l.text = .ofList l.spelling :=
  if_neg other

/-- A run of letters goes as far as the word, and is no other word if it is as long. -/
theorem covers_word {kind : Token.Kind} (letters : ∀ d ∈ c :: cs, Letter d)
    (named : Named (.ofList (c :: cs)) kind) :
    Covers (Lexeme.first c (cs ++ rest)) kind (.ofList (c :: cs)) (c :: cs) := by
  obtain ⟨letter, others⟩ := List.forall_mem_cons.1 letters
  have other := Lexeme.kind_word_ne c (cs ++ rest)
  rw [first_of_letter letter, Covers, text_of_ne other, Lexeme.word,
    List.takeWhile_append_of_pos fun d member => (isLetter_iff d).2 (others d member)]
  cases rest.takeWhile isLetter with
  | nil =>
    rw [List.append_nil]
    exact .inr ⟨named_iff.1 named, rfl, rfl⟩
  | cons d ds => exact .inl (by simp)

/-- Digits are a shorter number where more digits or a point follow them. -/
theorem covers_integer (digits : ∀ d ∈ c :: cs, Digit d) :
    Covers (Lexeme.first c (cs ++ rest)) .integer (.ofList (c :: cs)) (c :: cs) := by
  obtain ⟨digit, others⟩ := List.forall_mem_cons.1 digits
  have run : ∀ d ∈ cs, Number.isDigit d := fun d member => (isDigit_iff d).2 (others d member)
  rw [first_of_digit digit, Covers, text_of_ne (Lexeme.kind_number_ne _ _), Lexeme.number,
    List.takeWhile_append_of_pos run, List.dropWhile_append_of_pos run]
  split
  · split
    · exact .inl (by simp)
    · refine .inl ?_
      simp only [List.length_cons, List.length_append]
      omega
  · cases rest.takeWhile Number.isDigit with
    | nil =>
      rw [List.append_nil]
      exact .inr ⟨rfl, rfl, rfl⟩
    | cons d ds => exact .inl (by simp)

/-- After digits and a point, the fraction decides. -/
theorem number_point (run : ∀ d ∈ cs, Digit d) :
    Lexeme.number c (cs ++ '.' :: rest) =
      match rest.takeWhile Number.isDigit with
      | [] => ⟨.illegal, c :: cs ++ ['.'], rest⟩
      | fraction => ⟨.float, c :: cs ++ '.' :: fraction, rest.dropWhile Number.isDigit⟩ := by
  have run : ∀ d ∈ cs, Number.isDigit d := fun d member => (isDigit_iff d).2 (run d member)
  have apart : Apart Number.isDigit ('.' :: rest) := by
    rintro _ ⟨⟩
    rfl
  rw [Lexeme.number, takeWhile_append_of_apart run apart, dropWhile_append_of_apart run apart]
  rfl

theorem covers_float {fraction : List Char} (digits : ∀ d ∈ c :: cs, Digit d)
    (places : Run Digit fraction) :
    Covers (Lexeme.first c (cs ++ '.' :: (fraction ++ rest))) .float
      (.ofList (c :: cs ++ '.' :: fraction)) (c :: cs ++ '.' :: fraction) := by
  obtain ⟨digit, others⟩ := List.forall_mem_cons.1 digits
  obtain ⟨f, fs, rfl⟩ := List.exists_cons_of_ne_nil places.1
  have run : ∀ d ∈ f :: fs, Number.isDigit d :=
    fun d member => (isDigit_iff d).2 (places.2 d member)
  rw [first_of_digit digit, Covers, text_of_ne (Lexeme.kind_number_ne _ _), number_point others,
    List.takeWhile_append_of_pos run]
  cases rest.takeWhile Number.isDigit with
  | nil =>
    rw [List.append_nil]
    exact .inr ⟨rfl, rfl, rfl⟩
  | cons d ds => exact .inl (by simp)

theorem covers_point (digits : ∀ d ∈ c :: cs, Digit d) :
    Covers (Lexeme.first c (cs ++ '.' :: rest)) .illegal (.ofList (c :: cs ++ ['.']))
      (c :: cs ++ ['.']) := by
  obtain ⟨digit, others⟩ := List.forall_mem_cons.1 digits
  rw [first_of_digit digit, Covers, text_of_ne (Lexeme.kind_number_ne _ _), number_point others]
  cases rest.takeWhile Number.isDigit with
  | nil => exact .inr ⟨rfl, rfl, rfl⟩
  | cons d ds => exact .inl (by simp)

theorem all_ne_quote {body : List Char} (plain : '"' ∉ body) :
    ∀ d ∈ body, (decide (d ≠ '"')) = true :=
  fun _ member => decide_eq_true fun quote => plain (quote ▸ member)

/-- The closing quote is the next one. -/
theorem covers_string {body : List Char} (plain : '"' ∉ body) :
    Covers (Lexeme.first '"' (body ++ '"' :: rest)) .string (.ofList body)
      ('"' :: (body ++ ['"'])) := by
  have all := all_ne_quote plain
  have closing : Apart (fun d => decide (d ≠ '"')) ('"' :: rest) := by
    rintro _ ⟨⟩
    rfl
  have quoted : Lexeme.first '"' (body ++ '"' :: rest) =
      ⟨.string, '"' :: body ++ ['"'], rest⟩ := by
    show Lexeme.quoted _ = _
    rw [Lexeme.quoted, takeWhile_append_of_apart all closing, dropWhile_append_of_apart all closing]
  rw [quoted]
  exact .inr ⟨rfl, by simp [Lexeme.text], rfl⟩

theorem covers_unclosed {body : List Char} (plain : '"' ∉ body) :
    Covers (Lexeme.first '"' body) .illegal (.ofList ('"' :: body)) ('"' :: body) := by
  have none : (body ++ []).dropWhile (· ≠ '"') = [] :=
    dropWhile_append_of_apart (all_ne_quote plain) nofun
  rw [List.append_nil] at none
  have quoted : Lexeme.first '"' body = ⟨.illegal, '"' :: body, []⟩ := by
    show Lexeme.quoted _ = _
    rw [Lexeme.quoted, none]
  rw [quoted]
  exact .inr ⟨rfl, rfl, rfl⟩

/-- A mark is a character by itself, or one with an equals sign after it. -/
theorem mark_cases {text : String} {kind : Token.Kind} (listed : (text, kind) ∈ marks) :
    ∃ c, Lexeme.single? c ≠ none ∧ (text = .ofList [c] ∧ Lexeme.single? c = some kind ∨
      text = .ofList [c, '='] ∧ Lexeme.withEquals? c = some kind) := by
  have every : ∀ entry ∈ marks, Lexeme.single? (entry.1.toList.headD ' ') ≠ none ∧
      (entry.1 = .ofList [entry.1.toList.headD ' '] ∧
          Lexeme.single? (entry.1.toList.headD ' ') = some entry.2 ∨
        entry.1 = .ofList [entry.1.toList.headD ' ', '='] ∧
          Lexeme.withEquals? (entry.1.toList.headD ' ') = some entry.2) := by decide
  exact ⟨_, every (text, kind) listed⟩

/-- A character that is a mark by itself starts no other class. -/
theorem first_of_single? (known : Lexeme.single? c ≠ none) (cs : List Char) :
    Lexeme.first c cs = Lexeme.symbol c cs := by
  obtain ⟨kind, found⟩ := Option.ne_none_iff_exists'.1 known
  obtain ⟨-, digit, letter, quote⟩ := plain_of_single? found
  rw [Lexeme.first, if_neg (by rw [digit]; decide), if_neg (by rw [letter]; decide), if_neg quote]

/-- An equals sign after the character makes one mark of both. -/
theorem covers_mark {text : String} {kind : Token.Kind} (listed : (text, kind) ∈ marks)
    (whole : c :: cs = text.toList ++ rest) :
    Covers (Lexeme.first c cs) kind text text.toList := by
  obtain ⟨d, known, ⟨rfl, single⟩ | ⟨rfl, joined⟩⟩ := mark_cases listed
  all_goals
    simp only [String.toList_ofList, List.cons_append, List.nil_append] at whole ⊢
    obtain ⟨rfl, rfl⟩ := List.cons.inj whole
    rw [first_of_single? known, Covers, text_of_ne (Lexeme.kind_symbol_ne _ _)]
    unfold Lexeme.symbol
  · split
    · exact .inl (by simp)
    · rw [single]
      exact .inr ⟨rfl, rfl, rfl⟩
  · rw [joined]
    exact .inr ⟨rfl, rfl, rfl⟩

end Covers

/-- Every spelling at the front of a text is shorter than the lexeme that is cut off, or is it. -/
theorem Spells.covered {c : Char} {cs rest spelling : List Char} {kind : Token.Kind} {word : String}
    (h : Spells rest kind word spelling) (whole : c :: cs = spelling ++ rest) :
    Covers (Lexeme.first c cs) kind word spelling := by
  cases h with
  | word letters named =>
    obtain ⟨ds, rfl, rfl, all⟩ := letters.eq_cons whole
    exact covers_word all named
  | integer digits =>
    obtain ⟨ds, rfl, rfl, all⟩ := digits.eq_cons whole
    exact covers_integer all
  | float digits places =>
    rw [List.append_assoc] at whole
    obtain ⟨ds, rfl, rfl, all⟩ := digits.eq_cons whole
    exact covers_float all places
  | point digits =>
    rw [List.append_assoc] at whole
    obtain ⟨ds, rfl, rfl, all⟩ := digits.eq_cons whole
    exact covers_point all
  | string plain =>
    simp only [List.cons_append, List.append_assoc, List.nil_append] at whole
    obtain ⟨rfl, rfl⟩ := List.cons.inj whole
    exact covers_string plain
  | unclosed plain last =>
    rw [last, List.append_nil] at whole
    obtain ⟨rfl, rfl⟩ := List.cons.inj whole
    exact covers_unclosed plain
  | mark listed => exact covers_mark listed whole

/-! ## The lexeme that is cut off is spelled -/

section First

variable {c : Char} (cs : List Char)

theorem run_takeWhile {P : Char → Prop} {p : Char → Bool} (same : ∀ d, p d = true ↔ P d)
    (first : P c) : Run P (c :: cs.takeWhile p) :=
  ⟨List.cons_ne_nil _ _, List.forall_mem_cons.2 ⟨first, fun d member =>
    (same d).1 (List.all_eq_true.1 List.all_takeWhile d member)⟩⟩

theorem spells_number (digit : Digit c) :
    Spells (Lexeme.number c cs).rest (Lexeme.number c cs).kind (Lexeme.number c cs).text
      (Lexeme.number c cs).spelling := by
  have whole := run_takeWhile cs isDigit_iff digit
  rw [text_of_ne (Lexeme.kind_number_ne c cs)]
  unfold Lexeme.number
  split
  · rename_i after _
    split
    · exact .point whole
    · rename_i some_digit
      exact .float whole ⟨some_digit, fun d member =>
        (isDigit_iff d).1 (List.all_eq_true.1 List.all_takeWhile d member)⟩
  · exact .integer whole

theorem spells_word (letter : Letter c) :
    Spells (Lexeme.word c cs).rest (Lexeme.word c cs).kind (Lexeme.word c cs).text
      (Lexeme.word c cs).spelling := by
  rw [text_of_ne (Lexeme.kind_word_ne c cs)]
  exact .word (run_takeWhile cs isLetter_iff letter) (named_iff.2 rfl)

theorem spells_quoted :
    Spells (Lexeme.quoted cs).rest (Lexeme.quoted cs).kind (Lexeme.quoted cs).text
      (Lexeme.quoted cs).spelling := by
  have plain : '"' ∉ cs.takeWhile (· ≠ '"') := by
    intro inside
    have other := List.all_eq_true.1 List.all_takeWhile _ inside
    exact absurd rfl (of_decide_eq_true other)
  have split := List.takeWhile_append_dropWhile (p := (· ≠ '"')) (l := cs)
  unfold Lexeme.quoted
  cases left : cs.dropWhile (· ≠ '"') with
  | nil =>
    rw [left, List.append_nil] at split
    rw [split] at plain
    exact .unclosed plain rfl
  | cons close after =>
    have quote : close = '"' := by
      have stops := List.head?_dropWhile_not (· ≠ '"') cs
      rw [left] at stops
      simpa using stops
    subst quote
    have body : Lexeme.text ⟨.string, '"' :: cs.takeWhile (· ≠ '"') ++ ['"'], after⟩ =
        .ofList (cs.takeWhile (· ≠ '"')) := by
      simp [Lexeme.text]
    simp only [body]
    exact .string plain

theorem mem_marks_of_single? {kind : Token.Kind} (h : Lexeme.single? c = some kind) :
    (String.ofList [c], kind) ∈ marks := by
  unfold Lexeme.single? at h
  split at h <;> cases h <;> decide

theorem mem_marks_of_withEquals? {kind : Token.Kind} (h : Lexeme.withEquals? c = some kind) :
    (String.ofList [c, '='], kind) ∈ marks := by
  unfold Lexeme.withEquals? at h
  split at h <;> cases h <;> decide

/-- A symbol is a mark, unless no mark starts with its character. -/
theorem spells_symbol (known : Lexeme.single? c ≠ none) :
    Spells (Lexeme.symbol c cs).rest (Lexeme.symbol c cs).kind (Lexeme.symbol c cs).text
      (Lexeme.symbol c cs).spelling := by
  rw [text_of_ne (Lexeme.kind_symbol_ne c cs)]
  unfold Lexeme.symbol
  split
  · rename_i joined
    simpa using Spells.mark (mem_marks_of_withEquals? joined)
  · obtain ⟨kind, found⟩ := Option.ne_none_iff_exists'.1 known
    rw [found]
    simpa using Spells.mark (mem_marks_of_single? found)

end First

/-- How a spelling can start. -/
theorem Spells.starts {c : Char} {cs front rest : List Char} {kind : Token.Kind} {word : String}
    (h : Spells rest kind word front) (whole : c :: cs = front ++ rest) :
    Letter c ∨ Digit c ∨ c = '"' ∨ Lexeme.single? c ≠ none := by
  cases h with
  | word letters _ => exact .inl (letters.head whole)
  | integer digits => exact .inr (.inl (digits.head whole))
  | float digits _ => exact .inr (.inl (digits.head (by rwa [List.append_assoc] at whole)))
  | point digits => exact .inr (.inl (digits.head (by rwa [List.append_assoc] at whole)))
  | string _ => exact .inr (.inr (.inl (List.cons.inj whole).1))
  | unclosed _ _ => exact .inr (.inr (.inl (List.cons.inj whole).1))
  | mark listed =>
    obtain ⟨d, known, ⟨rfl, -⟩ | ⟨rfl, -⟩⟩ := mark_cases listed
    all_goals
      rw [String.toList_ofList] at whole
      rw [(List.cons.inj whole).1]
      exact .inr (.inr (.inr known))

/-- The lexeme that is cut off is spelled, or it is a single character that starts no spelling. -/
theorem spells_first (c : Char) (cs : List Char) :
    Spells (Lexeme.first c cs).rest (Lexeme.first c cs).kind (Lexeme.first c cs).text
        (Lexeme.first c cs).spelling ∨
      Lexeme.first c cs = ⟨.illegal, [c], cs⟩ ∧
        ∀ front rest kind word, c :: cs = front ++ rest → ¬ Spells rest kind word front := by
  by_cases digit : Digit c
  · rw [first_of_digit digit]
    exact .inl (spells_number cs digit)
  by_cases letter : Letter c
  · rw [first_of_letter letter]
    exact .inl (spells_word cs letter)
  by_cases quote : c = '"'
  · subst quote
    exact .inl (spells_quoted cs)
  by_cases known : Lexeme.single? c = none
  · refine .inr ⟨?_, fun front rest kind word whole h => ?_⟩
    · rw [Lexeme.first, if_neg (mt (isDigit_iff c).1 digit), if_neg (mt (isLetter_iff c).1 letter),
        if_neg quote, Lexeme.symbol, known]
      · rfl
      · -- an equals sign joins only characters that are marks by themselves
        intro kind after joined
        unfold Lexeme.withEquals? at joined
        split at joined <;> cases joined <;> cases known
    · rcases h.starts whole with h | h | h | h
      · exact letter h
      · exact digit h
      · exact quote h
      · exact h known
  · rw [first_of_single? known]
    exact .inl (spells_symbol cs known)

/-- The lexeme that is cut off is the longest. -/
theorem takes_first (c : Char) (cs : List Char) :
    Takes (c :: cs) (Lexeme.first c cs).kind (Lexeme.first c cs).text (Lexeme.first c cs).spelling
      (Lexeme.first c cs).rest := by
  rcases spells_first c cs with own | ⟨single, nothing⟩
  · refine .spelled ⟨(Lexeme.spelling_append_rest c cs).symm, ⟨_, _, own⟩, ?_⟩ own
    rintro front rest whole ⟨kind, word, h⟩
    rcases h.covered whole with shorter | ⟨-, -, same⟩
    · exact Nat.le_of_lt shorter
    · exact Nat.le_of_eq (congrArg List.length same)
  · rw [single]
    exact .other rfl nothing

/-- Nothing else is taken off the front of a text. -/
theorem Takes.eq_first {c : Char} {cs spelling rest : List Char} {kind : Token.Kind}
    {word : String} (h : Takes (c :: cs) kind word spelling rest) :
    Lexeme.first c cs = ⟨kind, spelling, rest⟩ ∧ (Lexeme.first c cs).text = word := by
  have cut := Lexeme.spelling_append_rest c cs
  rcases h with ⟨longest, spells⟩ | ⟨whole, nothing⟩
  · rcases spells_first c cs with own | ⟨-, nothing⟩
    · have reached := longest.longest _ _ cut.symm ⟨_, _, own⟩
      rcases spells.covered longest.whole with shorter | ⟨rfl, rfl, rfl⟩
      · omega
      · rw [longest.whole] at cut
        rw [← List.append_cancel_left cut]
        exact ⟨rfl, rfl⟩
    · exact absurd spells (nothing _ _ _ _ longest.whole)
  · obtain ⟨rfl, rfl⟩ := List.cons.inj whole
    rcases spells_first c cs with own | ⟨single, -⟩
    · exact absurd own (nothing _ _ _ _ cut.symm)
    · rw [single]
      exact ⟨rfl, rfl⟩

theorem Spells.ne_nil {rest front : List Char} {kind : Token.Kind} {word : String}
    (h : Spells rest kind word front) : front ≠ [] := by
  cases h with
  | word letters _ => exact letters.1
  | integer digits => exact digits.1
  | float _ _ | point _ => exact List.append_ne_nil_of_right_ne_nil _ (List.cons_ne_nil _ _)
  | string _ | unclosed _ _ => exact List.cons_ne_nil _ _
  | mark listed =>
    obtain ⟨d, -, ⟨rfl, -⟩ | ⟨rfl, -⟩⟩ := mark_cases listed
    all_goals
      rw [String.toList_ofList]
      exact List.cons_ne_nil _ _

/-- There is a token in front of some text only. -/
theorem Takes.exists_cons {text spelling rest : List Char} {kind : Token.Kind} {word : String}
    (h : Takes text kind word spelling rest) : ∃ c cs, text = c :: cs := by
  cases h with
  | spelled longest spells =>
    obtain ⟨c, cs, rfl⟩ := List.exists_cons_of_ne_nil spells.ne_nil
    exact ⟨c, cs ++ rest, longest.whole⟩
  | other whole _ => exact ⟨_, _, whole⟩

/-! ## Texts -/

/-- There is one sequence of tokens to come to. -/
theorem Munched.unique {before text : List Char} {ts us : List Token}
    (h : Munched before text ts) (h' : Munched before text us) : ts = us := by
  induction h generalizing us with
  | finish gap =>
    cases h' with
    | finish gap' => rw [(gap.unique gap').1]
    | token gap' takes _ =>
      obtain ⟨c, cs, left⟩ := takes.exists_cons
      obtain ⟨-, none⟩ := gap.unique gap'
      rw [left] at none
      cases none
  | token gap takes _ ih =>
    obtain ⟨c, cs, rfl⟩ := takes.exists_cons
    cases h' with
    | finish gap' =>
      obtain ⟨-, none⟩ := gap.unique gap'
      cases none
    | token gap' takes' later' =>
      obtain ⟨rfl, rfl⟩ := gap.unique gap'
      -- both take the lexeme that is cut off
      obtain ⟨first, rfl⟩ := takes.eq_first
      obtain ⟨first', rfl⟩ := takes'.eq_first
      cases first.symm.trans first'
      rw [ih later']

end Munch

open Munch

/-- Each step of the scanner drops the longest gap and takes the longest spelling. -/
theorem Cursor.munched_scan (c : Cursor) (before : List Char) (start : c.pos = .after before) :
    Munched before c.rest (c.scan.tokens ++ [c.scan.finish]) := by
  fun_induction Cursor.scan c generalizing before with
  | case1 c step ended =>
    have gap := longest_splitLayout c.rest
    have place := pos_skipLayout start
    cases left : c.skipLayout.rest with
    | nil =>
      have none : (splitLayout false c.rest).2 = [] := left
      rw [none] at gap
      show Munched before c.rest [c.next.1]
      rw [next_of_nil left, place]
      exact .finish gap
    | cons ch cs =>
      have last : c.next.1.kind = .endOfInput := ended
      rw [next_of_cons left] at last
      exact absurd last (Lexeme.lexed_first ch cs c.skipLayout.pos).not_end
  | case2 c step inside shorter rest ih =>
    have gap := longest_splitLayout c.rest
    have place := pos_skipLayout start
    cases left : c.skipLayout.rest with
    | nil =>
      have before : c.next.1.kind ≠ .endOfInput := inside
      rw [next_of_nil left] at before
      exact absurd rfl before
    | cons ch cs =>
      have some_left : (splitLayout false c.rest).2 = ch :: cs := left
      rw [some_left] at gap
      have next := next_of_cons left
      have later := ih (before ++ (splitLayout false c.rest).1 ++ (Lexeme.first ch cs).spelling) (by
        show c.next.2.pos = _
        rw [next, place, Position.advance_after])
      show Munched before c.rest (c.next.1 :: (rest.tokens ++ [rest.finish]))
      have after : step.2.rest = (Lexeme.first ch cs).rest := congrArg (·.2.rest) next
      rw [after] at later
      rw [next, place]
      exact .token gap (takes_first ch cs) later

/-- **Maximal munch.**  The tokens of a text are those that one comes to, and the only ones, by
dropping the longest gap of blanks and comments and taking the longest spelling of a token, or a
single character where there is none, again and again up to the end of input. -/
theorem maximal_munch (source : String) (ts : List Token) :
    Munched [] source.toList ts ↔ ts = tokenize source := by
  have scanned : Munched [] source.toList (tokenize source) :=
    Cursor.munched_scan (Cursor.ofString source) [] rfl
  constructor
  · exact fun h => h.unique scanned
  · rintro rfl
    exact scanned

example : (tokenize "1.2.x1<== // \"").map Token.kind =
    [.float, .dot, .identifier, .integer, .lessEqual, .assign, .endOfInput] := by decide +kernel

end Guion
