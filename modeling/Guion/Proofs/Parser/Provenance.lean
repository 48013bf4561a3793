import Guion.Proofs.Number.Literals
import Guion.Proofs.Parser.Balance
import Guion.Proofs.Parser.Finishing
import Guion.Proofs.Program.Nodes

/-!
# Where trees come from

Trees are made of the tokens that were read, and of nothing else (`leaves_in_order`).  While a text
is read, the names and literals of the trees built so far, followed by those still ahead, are names
and literals of the text in their order, and all of them as long as no error was recorded
(`Source.Kept`).  Every node agrees with its token, and every error stands at a token
(`trees_well_formed`).

A step that moves on passes a token that is no leaf, or adds the node of the leaf that it passes.
Only recovery drops leaves, when it drops the half-built statement and skips its rest, and it
records an error.  There is one lemma for each production, given that those one level further in
behave the same.
-/

set_option autoImplicit false

namespace Guion

namespace Parser

open Bounded HasNodes
open scoped List

variable {α β : Type}

/-- A text as scanning leaves it, to be read as a program or as a statement by itself. -/
structure Source extends Scanned where
  /-- It is read as a program, so malformed statements are skipped outside of blocks as well. -/
  asProgram : Prop
  ended : finish.kind = .endOfInput
  worded : ∀ t ∈ tokens, t.Worded

/-- The text of `source`, to be read as a program. -/
def Source.ofString (source : String) : Source :=
  ⟨scan source, True, kind_finish_scan source, worded_scan source⟩

namespace Source

variable (S : Source)

/-- The error stands at a token of the text. -/
def Located (e : SyntaxError) : Prop := ∃ t ∈ S.tokens ++ [S.finish], e.pos = t.pos

/-- A statement of the text may be malformed and skipped: it is one of a program or of a block. -/
def Recovers : Prop := S.asProgram ∨ ∃ t ∈ S.tokens, t.kind = .leftCurly

/-- The text is read up to `s`, with errors at its tokens only. -/
structure Reached (s : State) : Prop where
  tokens : s.tokens <:+ S.tokens
  finish : s.finish = S.finish
  errors : ∀ e ∈ s.errors.toList, S.Located e
  recovers : s.errors ≠ #[] → S.Recovers

/-- Where `left` is what is left of the text, the nodes `ns` have been kept of the rest: their
leaves and those that are left are leaves of the text, in its order, and all of them as long as no
error was recorded. -/
structure Kept (left : State → List Token) (ns : List Node) (s : State) : Prop
    extends S.Reached s where
  formed : ∀ n ∈ ns, n.Formed
  leaves : ns.filterMap Node.leaf? ++ (left s).filter Token.isLeaf <+ S.tokens.filter Token.isLeaf
  whole : s.errors = #[] →
    ns.filterMap Node.leaf? ++ (left s).filter Token.isLeaf = S.tokens.filter Token.isLeaf

/-- The nodes kept before the current token. -/
abbrev Upto : List Node → State → Prop := S.Kept State.tokens

/-- The nodes kept up to the current token, and of it. -/
abbrev Past : List Node → State → Prop := S.Kept State.ahead

variable {S} {ns ms : List Node} {n : Node} {s : State} {left : State → List Token}

/-! ## States -/

theorem Reached.current_mem (h : S.Reached s) : s.current ∈ S.tokens ++ [S.finish] := by
  cases rest : s.tokens with
  | nil => simp [State.current, rest, h.finish]
  | cons t ts =>
    rw [State.current_of_tokens rest]
    exact List.mem_append_left _ (h.tokens.subset (rest ▸ List.mem_cons_self))

theorem Reached.located (h : S.Reached s) (fault : SyntaxError.Fault) :
    S.Located ⟨s.current.pos, fault⟩ :=
  ⟨s.current, h.current_mem, rfl⟩

theorem Reached.tokens_eq_cons (h : S.Reached s) (before : s.current.kind ≠ .endOfInput) :
    s.tokens = s.current :: s.ahead :=
  State.tokens_eq_cons (h.finish ▸ S.ended) before

theorem Reached.mem_tokens (h : S.Reached s) (before : s.current.kind ≠ .endOfInput) :
    s.current ∈ S.tokens :=
  h.tokens.subset (h.tokens_eq_cons before ▸ List.mem_cons_self)

theorem Reached.worded (h : S.Reached s) (before : s.current.kind ≠ .endOfInput) :
    s.current.Worded :=
  S.worded _ (h.mem_tokens before)

theorem Reached.worded_of_fixed (h : S.Reached s) (fixed : s.current.kind.fixed = true) :
    s.current.Worded :=
  h.worded (Token.Kind.ne_endOfInput_of_fixed fixed)

theorem Reached.advance (h : S.Reached s) : S.Reached s.advance :=
  ⟨(List.tail_suffix _).trans h.tokens, h.finish, h.errors, h.recovers⟩

theorem Reached.recover (h : S.Reached s) {e : SyntaxError} (located : S.Located e)
    (recovers : S.Recovers) : S.Reached (s.recover e) := by
  refine ⟨(resume_suffix s.tokens 0).trans h.tokens, h.finish, fun d member => ?_,
    fun _ => recovers⟩
  rw [State.recover, Array.toList_push] at member
  rcases List.mem_append.1 member with old | new
  · exact h.errors d old
  · exact List.mem_singleton.1 new ▸ located

theorem Kept.advance (h : S.Past ns s) : S.Upto ns s.advance :=
  ⟨h.toReached.advance, h.formed, h.leaves, h.whole⟩

/-- A token that is no leaf leaves nothing behind. -/
theorem Kept.pass (h : S.Upto ns s) (plain : s.current.kind.isLeaf = false) : S.Past ns s := by
  have same : s.tokens.filter Token.isLeaf = s.ahead.filter Token.isLeaf := by
    cases rest : s.tokens with
    | nil => rw [State.ahead, rest, List.tail_nil]
    | cons t ts =>
      rw [State.current_of_tokens rest] at plain
      rw [State.ahead, rest, List.tail_cons]
      exact List.filter_cons_of_neg (by rw [Token.isLeaf, plain]; exact Bool.false_ne_true)
  exact ⟨h.toReached, h.formed, same ▸ h.leaves, same ▸ h.whole⟩

/-- A leaf leaves its node behind. -/
theorem Kept.take (h : S.Upto ns s) (leaf : s.current.kind.isLeaf = true)
    (token : n.leaf? = some s.current) (formed : n.Formed) : S.Past (ns ++ [n]) s := by
  have before := Token.Kind.ne_endOfInput_of_isLeaf leaf
  have same : ns.filterMap Node.leaf? ++ s.tokens.filter Token.isLeaf =
      (ns ++ [n]).filterMap Node.leaf? ++ s.ahead.filter Token.isLeaf := by
    have first : s.current.isLeaf = true := leaf
    simp [h.tokens_eq_cons before, first, token]
  exact ⟨h.toReached, List.forall_mem_append.2 ⟨h.formed, List.forall_mem_singleton.2 formed⟩,
    same ▸ h.leaves, same ▸ h.whole⟩

/-- A construct that is complete adds a node, and no leaf. -/
theorem Kept.close (h : S.Past ns s) (inner : n.leaf? = none) (formed : n.Formed) :
    S.Past (ns ++ [n]) s := by
  have same : (ns ++ [n]).filterMap Node.leaf? = ns.filterMap Node.leaf? := by simp [inner]
  exact ⟨h.toReached, List.forall_mem_append.2 ⟨h.formed, List.forall_mem_singleton.2 formed⟩,
    same ▸ h.leaves, same ▸ h.whole⟩

/-- The leaf of a node that was kept is a token of the text. -/
theorem Kept.mem (h : S.Kept left ns s) (member : n ∈ ns) {t : Token} (token : n.leaf? = some t) :
    t ∈ S.tokens := by
  have listed : t ∈ ns.filterMap Node.leaf? := List.mem_filterMap.2 ⟨n, member, token⟩
  exact List.mem_of_mem_filter (h.leaves.subset (List.mem_append_left _ listed))

/-- What was kept before a malformed statement stays. -/
theorem Kept.skip (h : S.Upto ns s) {t : State} (ahead : s.Ahead t) (reached : S.Reached t)
    (recorded : t.errors ≠ #[]) : S.Upto ns t := by
  refine ⟨reached, h.formed, ?_, fun none => absurd none recorded⟩
  exact ((ahead.tokens.sublist.filter _).append_left _).trans h.leaves

/-! ## Runs -/

variable (S) in
/-- How a run may end: with `Q`, or with an error at a token. -/
def Ends (Q : α → State → Prop) : EStateM.Result (Stop SyntaxError) State α → Prop
  | .ok a t => Q a t
  | .error (.error e) t => S.Located e ∧ S.Reached t
  | .error .exhausted _ => True

variable (S) in
/-- From `P`, the parser builds what is in `Q`. -/
def Builds (P : State → Prop) (p : Parser α) (Q : α → State → Prop) : Prop :=
  ∀ s, P s → S.Ends Q (p s)

variable (S) in
/-- The parser starts before or after the current token, ends on its last token, and adds the nodes
of what it yields. -/
def Adds [HasNodes α] (left : State → List Token) (p : Parser α) : Prop :=
  ∀ ns, S.Builds (S.Kept left ns) p fun a => S.Past (ns ++ nodes a)

section Steps

variable {P : State → Prop} {p : Parser α} {Q : α → State → Prop}

theorem Builds.bind {f : α → Parser β} {R : β → State → Prop} (first : S.Builds P p Q)
    (rest : ∀ a, S.Builds (Q a) (f a) R) : S.Builds P (p >>= f) R := by
  intro s hs
  have ends := first s hs
  cases run : p s with
  | ok a t =>
    rw [run] at ends
    rw [bind_of_ok run]
    exact rest a t ends
  | error stop t =>
    rw [run] at ends
    rw [bind_of_error run]
    cases stop <;> exact ends

theorem Builds.pre {P' : State → Prop} (h : S.Builds P p Q) (pre : ∀ s, P' s → P s) :
    S.Builds P' p Q :=
  fun s hs => h s (pre s hs)

theorem Builds.post {Q' : α → State → Prop} (h : S.Builds P p Q)
    (post : ∀ a t, Q a t → Q' a t) : S.Builds P p Q' := by
  intro s hs
  have ends := h s hs
  cases run : p s with
  | ok a t =>
    rw [run] at ends
    exact post a t ends
  | error stop t =>
    rw [run] at ends
    cases stop <;> exact ends

theorem builds_pure {a : α} (h : ∀ s, P s → Q a s) : S.Builds P (pure a) Q := h

theorem builds_exhausted : S.Builds P exhausted Q := fun _ _ => trivial

theorem Builds.ite {q : Parser α} {condition : Prop} [Decidable condition]
    (yes : condition → S.Builds P p Q) (no : ¬ condition → S.Builds P q Q) :
    S.Builds P (if condition then p else q) Q := by
  split
  · exact yes ‹_›
  · exact no ‹_›

theorem Builds.map {f : α → β} {R : β → State → Prop} (h : S.Builds P p Q)
    (post : ∀ a t, Q a t → R (f a) t) : S.Builds P (f <$> p) R := by
  rw [map_eq_bind]
  exact h.bind fun a => builds_pure (post a)

theorem builds_current_bind {f : Token → Parser α}
    (rest : ∀ token, S.Builds (fun s => P s ∧ s.current = token) (f token) Q) :
    S.Builds P (current >>= f) Q :=
  fun s hs => rest s.current s ⟨hs, rfl⟩

theorem builds_peek_bind {f : Token → Parser α}
    (rest : ∀ token, S.Builds (fun s => P s ∧ s.peek = token) (f token) Q) :
    S.Builds P (peek >>= f) Q :=
  fun s hs => rest s.peek s ⟨hs, rfl⟩

theorem builds_failHere {fault : SyntaxError.Fault} (h : ∀ s, P s → S.Reached s) :
    S.Builds P (failHere fault) Q :=
  fun s hs => ⟨(h s hs).located fault, h s hs⟩

/-- Past a token that is no leaf. -/
theorem builds_advance {token : Token} (plain : token.kind.isLeaf = false) :
    S.Builds (fun s => S.Past ns s ∧ s.peek = token) advance fun _ => S.Past ns := by
  rintro s ⟨past, rfl⟩
  exact past.advance.pass plain

/-- A token that was expected is reached, or the error stands at another one. -/
theorem builds_expect (kind : Token.Kind) :
    S.Builds (S.Past ns) (expect kind) fun _ t => S.Upto ns t ∧ t.current.kind = kind := by
  refine builds_peek_bind fun token => Builds.ite (fun found => ?_) fun _ => ?_
  · rintro s ⟨past, rfl⟩
    exact ⟨past.advance, found⟩
  · rintro s ⟨past, rfl⟩
    exact ⟨past.advance.located _, past.toReached⟩

theorem builds_expect_plain {kind : Token.Kind} (plain : kind.isLeaf = false) :
    S.Builds (S.Past ns) (expect kind) fun _ => S.Past ns :=
  (builds_expect kind).post fun _ _ h => h.1.pass (h.2 ▸ plain)

/-- Past an opening brace there may be statements to recover from. -/
theorem builds_expect_opening :
    S.Builds (S.Past ns) (expect .leftCurly) fun _ t => S.Past ns t ∧ S.Recovers := by
  refine (builds_expect .leftCurly).post fun _ t ⟨upto, kind⟩ => ?_
  have member := upto.mem_tokens (by rw [kind]; decide)
  exact ⟨upto.pass (by rw [kind]; rfl), .inr ⟨t.current, member, kind⟩⟩

theorem adds_expectIdentifier : S.Adds State.ahead expectIdentifier := by
  intro ns
  refine (builds_expect .identifier).bind fun _ => builds_current_bind fun token => builds_pure ?_
  rintro s ⟨⟨upto, kind⟩, rfl⟩
  have worded := upto.worded (by rw [kind]; decide)
  exact upto.take (by rw [kind]; rfl) rfl ⟨rfl, worded.name kind⟩

theorem builds_skipSemicolon : S.Builds (S.Past ns) skipSemicolon fun _ => S.Past ns := by
  refine builds_peek_bind fun token => Builds.ite (fun found => ?_) fun _ => ?_
  · exact builds_advance (by rw [found]; rfl)
  · exact builds_pure fun _ h => h.1

/-- The depth does not matter to what was kept. -/
theorem Kept.depth (h : S.Kept left ns s) {depth : Nat} (same : left { s with depth } = left s) :
    S.Kept left ns { s with depth } :=
  ⟨⟨h.tokens, h.finish, h.errors, h.recovers⟩, h.formed, same ▸ h.leaves,
    fun none => same ▸ h.whole none⟩

theorem builds_enter (limit : Nat) (reached : ∀ s, P s → S.Reached s)
    (kept : ∀ (s : State) depth, P s → P { s with depth }) :
    S.Builds P (enter limit) fun _ => P := by
  intro s hs
  rcases enter_cases limit s with ⟨-, entered⟩ | ⟨-, refused⟩
  · rw [entered]
    exact kept s _ hs
  · rw [refused]
    exact ⟨(reached s hs).located _, reached s hs⟩

theorem Builds.ensuring {kept : α → List Node} (h : S.Builds P p fun a => S.Past (kept a))
    (after : State → State) (depth : ∀ t, ∃ depth, after t = { t with depth }) :
    S.Builds P (ensuring after p) fun a => S.Past (kept a) := by
  intro s hs
  have ends := h s hs
  rw [Bounded.ensuring]
  cases run : p s with
  | ok a t =>
    rw [run] at ends
    obtain ⟨level, same⟩ := depth t
    show S.Past (kept a) (after t)
    rw [same]
    exact Kept.depth ends rfl
  | error stop t =>
    rw [run] at ends
    cases stop with
    | error e =>
      obtain ⟨level, same⟩ := depth t
      show S.Located e ∧ S.Reached (after t)
      rw [same]
      exact ⟨ends.1, ends.2.tokens, ends.2.finish, ends.2.errors, ends.2.recovers⟩
    | exhausted => trivial

theorem Adds.nested [HasNodes α] (h : S.Adds left p) (limit : Nat)
    (same : ∀ (s : State) depth, left { s with depth } = left s) :
    S.Adds left (nested limit p) :=
  fun ns => (builds_enter limit (fun _ kept => kept.toReached)
    fun s depth kept => kept.depth (same s depth)).bind fun _ => (h ns).ensuring _ fun _ => ⟨_, rfl⟩

theorem Builds.keepingDepth {kept : α → List Node} (h : S.Builds P p fun a => S.Past (kept a)) :
    S.Builds P (keepingDepth p) fun a => S.Past (kept a) :=
  fun s hs => h.ensuring (fun t => { t with depth := s.depth }) (fun _ => ⟨_, rfl⟩) s hs

/-- A malformed statement leaves nothing behind but its error. -/
theorem Adds.recovering [HasNodes α] {p : Parser (Option α)} [Onward p]
    (h : S.Adds State.tokens p) (recovers : S.Recovers) (ns : List Node) :
    S.Builds (S.Upto ns) (recovering p) fun found t => S.Upto (ns ++ nodes found) t.advance := by
  intro s upto
  have ends := h ns s upto
  rw [Parser.recovering]
  cases run : p s with
  | ok found t =>
    rw [run] at ends
    exact Kept.advance ends
  | error stop t =>
    rw [run] at ends
    cases stop with
    | error e =>
      -- what was built of the statement is dropped, and the leaves that it used up are missing
      have ahead : s.Ahead (t.recover e).advance :=
        IsTrans.trans _ _ _ (Keeps.error run)
          (IsTrans.trans _ _ _ (t.ahead_recover e) (t.recover e).ahead_advance)
      show S.Upto (ns ++ []) (t.recover e).advance
      rw [List.append_nil]
      refine upto.skip ahead (ends.2.recover ends.1 recovers).advance fun none => ?_
      exact absurd (congrArg Array.size none) (by simp [State.advance, State.recover])
    | exhausted => trivial

/-- What a round adds: more, before the next one, or nothing, at the end. -/
def Round [HasNodes α] (K K' : List Node → State → Prop) (ns : List Node) :
    Option (List α) → State → Prop
  | none => K' ns
  | some found => K (ns ++ nodes found)

theorem Round.single [HasNodes α] {K K' : List Node → State → Prop} {a : α}
    (h : K (ns ++ nodes a) s) : Round K K' ns (some [a]) s := by
  rwa [Round, nodes_singleton]

theorem builds_collect [HasNodes α] {K K' : List Node → State → Prop}
    {round : Parser (Option (List α))} (h : ∀ ns, S.Builds (K ns) round (Round K K' ns)) (k : Nat) :
    ∀ ns, S.Builds (K ns) (collect round k) fun found => K' (ns ++ nodes found) := by
  induction k with
  | zero => exact fun _ => builds_exhausted
  | succ k ih =>
    intro ns
    refine (h ns).bind fun found => ?_
    cases found with
    | none => exact builds_pure fun s ended => by rwa [nodes_nil, List.append_nil]
    | some found =>
      -- the rounds that follow go on from what this one added
      refine (ih (ns ++ nodes found)).bind fun more => builds_pure fun s ended => ?_
      rwa [nodes_append, ← List.append_assoc]

end Steps

/-! ## Productions -/

variable (S) in
/-- The productions one level further in add the nodes of what they yield. -/
class Inner (inner : Productions) : Prop where
  expression : ∀ power, S.Adds State.tokens (inner.expression power)
  block : ∀ ns, S.Builds (fun s => S.Past ns s ∧ S.Recovers) inner.block
    fun body => S.Past (ns ++ nodes body)
  conditional : ∀ token, S.Adds State.ahead (inner.conditional token)

section Productions

variable (limit bound : Nat) (inner : Productions)

/-- Constructs whose nodes are those of their parts, which were kept one after the other. -/
theorem builds_parts [HasNodes α] {a : α} (parts : ns ++ nodes a = ms) :
    S.Builds (S.Past ms) (pure a) fun a => S.Past (ns ++ nodes a) :=
  builds_pure fun _ past => parts ▸ past

/-- Constructs with a node of their own after those of their parts. -/
theorem builds_node [HasNodes α] {a : α} (parts : ns ++ nodes a = ms ++ [n])
    (inner : n.leaf? = none) (formed : n.Formed) :
    S.Builds (S.Past ms) (pure a) fun a => S.Past (ns ++ nodes a) :=
  builds_pure fun _ past => parts ▸ past.close inner formed

theorem Adds.commaSeparated [HasNodes α] {item : Parser α} (h : S.Adds State.ahead item) :
    S.Adds State.ahead (commaSeparated bound item) := by
  refine builds_collect (fun ns => ?_) bound
  refine builds_peek_bind fun token => Builds.ite (fun comma => ?_) fun _ => ?_
  · exact (builds_advance (by rw [comma]; rfl)).bind fun _ => (h ns).bind fun a =>
      builds_pure fun _ past => .single past
  · exact builds_pure fun _ h => h.1

theorem adds_parameters : S.Adds State.ahead (parameters bound) := by
  intro ns
  refine builds_peek_bind fun token => Builds.ite (fun closes => ?_) fun _ => ?_
  · exact (builds_advance (by rw [closes]; rfl)).bind fun _ => builds_parts (by simp)
  · exact ((adds_expectIdentifier ns).pre fun _ h => h.1).bind fun first =>
      (adds_expectIdentifier.commaSeparated bound _).bind fun more =>
        (builds_expect_plain rfl).bind fun _ => builds_parts (by simp)

variable [deeper : S.Inner inner]

theorem adds_nextExpression (power : BindingPower) :
    S.Adds State.ahead (nextExpression inner power) :=
  fun ns s past => deeper.expression power ns s.advance past.advance

theorem adds_functionRest : S.Adds State.ahead (functionRest bound inner) := fun ns =>
  (builds_expect_plain rfl).bind fun _ => (adds_parameters bound ns).bind fun names =>
    builds_expect_opening.bind fun _ => (deeper.block _).bind fun body =>
      builds_parts (by simp [nodes])

theorem adds_unary {token : Token} {op : UnaryOp} (spelled : op.render = token.text) :
    S.Adds State.ahead (unary inner token op) := fun ns =>
  (adds_nextExpression inner .unary ns).bind fun operand =>
    builds_node (n := .expression (.unary token op operand)) (by simp [nodes, Expression.nodes])
      rfl spelled

theorem adds_grouped : S.Adds State.ahead (grouped inner) := fun ns =>
  (adds_nextExpression inner .lowest ns).bind fun _ => (builds_expect_plain rfl).bind fun _ =>
    builds_parts rfl

theorem adds_alternative : S.Adds State.ahead (alternative limit inner) := by
  intro ns
  refine builds_peek_bind fun token => ?_
  obtain ⟨kind, text, pos⟩ := token
  cases kind with
  | sino =>
    exact (builds_advance rfl).bind fun _ => builds_expect_opening.bind fun _ =>
      (deeper.block ns).bind fun body => builds_parts (by simp)
  | sinosi =>
    refine (builds_advance rfl).bind fun _ => builds_current_bind fun token => ?_
    have chained := (deeper.conditional token).nested limit (fun _ _ => rfl) ns
    -- the conditional is the only statement of a block
    exact (chained.pre fun _ h => h.1).bind fun e =>
      builds_node (n := .statement (.expression token e))
        (by simp [nodes, Block.nodes, Statement.nodesAll, Statement.nodes]) rfl trivial
  | _ => exact builds_pure fun _ h => by simpa using h.1

theorem adds_conditional (token : Token) : S.Adds State.ahead (conditional limit inner token) :=
  fun ns => (builds_expect_plain rfl).bind fun _ =>
    (adds_nextExpression inner .lowest ns).bind fun condition =>
      (builds_expect_plain rfl).bind fun _ => builds_expect_opening.bind fun _ =>
        (deeper.block _).bind fun consequence => (adds_alternative limit inner _).bind fun other =>
          builds_node (n := .expression (.conditional token condition consequence other))
            (by cases other <;> simp [nodes, Expression.nodes, Block.nodesOption]) rfl trivial

theorem adds_property : S.Adds State.ahead (property inner) := by
  intro ns
  refine (adds_expectIdentifier ns).bind fun key => builds_peek_bind fun token =>
    Builds.ite (fun colon => ?_) fun _ => ?_
  · exact (builds_advance (by rw [colon]; rfl)).bind fun _ =>
      (adds_nextExpression inner .lowest _).bind fun value =>
        builds_parts (by simp [nodes, Property.nodes, Expression.nodesOption])
  · exact builds_pure fun _ h => h.1

theorem adds_moreProperties : S.Adds State.ahead (moreProperties bound inner) := by
  refine builds_collect (fun ns => ?_) bound
  refine builds_peek_bind fun token => Builds.ite (fun comma => ?_) fun _ => ?_
  · refine (builds_advance (by rw [comma]; rfl)).bind fun _ => builds_peek_bind fun token =>
      Builds.ite (fun _ => builds_pure fun _ h => h.1) fun _ => ?_
    exact ((adds_property inner ns).pre fun _ h => h.1).bind fun found =>
      builds_pure fun _ past => .single past
  · exact builds_pure fun _ h => h.1

theorem adds_object (token : Token) : S.Adds State.ahead (object bound inner token) := by
  have properties : S.Adds State.ahead (properties bound inner) := by
    intro ns
    refine builds_peek_bind fun token => Builds.ite (fun _ => ?_) fun _ => ?_
    · exact builds_pure fun _ h => by simpa using h.1
    · exact ((adds_property inner ns).pre fun _ h => h.1).bind fun first =>
        (adds_moreProperties bound inner _).bind fun more => builds_parts (by simp)
  exact fun ns => (properties ns).bind fun found => (builds_expect_plain rfl).bind fun _ =>
    builds_node (n := .expression (.object token found))
      (by simp [nodes, Expression.nodes, nodesAll_properties]) rfl trivial

/-- An integer has the decimal value of its digits. -/
theorem formed_integer {token : Token} {value : Int} (worded : token.Worded)
    (kind : token.kind = .integer) (h : Number.readInteger? token.text = some value) :
    (Expression.integer token value).Formed := by
  obtain ⟨some_digit, digits⟩ := worded.integer kind
  rw [Number.readInteger?_of_digits some_digit digits, Number.ofDigits_toList] at h
  have run : Munch.Run Munch.Digit token.text.toList :=
    ⟨some_digit, fun c member => (Munch.isDigit_iff c).1 (List.all_eq_true.1 digits c member)⟩
  split at h
  · rename_i small
    cases h
    exact ⟨run, rfl, Int.natCast_nonneg _, Int.ofNat_lt.2 small⟩
  · cases h

theorem adds_operand : S.Adds State.tokens (operand limit bound inner) := by
  intro ns
  refine builds_current_bind fun token => ?_
  -- a leaf is a construct by itself
  have leaf {e : Expression} {n : Node} (whole : nodes e = [n]) (kind : token.kind.isLeaf = true)
      (own : n.leaf? = some token) (formed : token.Worded → n.Formed) :
      S.Builds (fun s => S.Upto ns s ∧ s.current = token) (pure e)
        fun e => S.Past (ns ++ nodes e) := by
    refine builds_pure ?_
    rintro s ⟨upto, rfl⟩
    rw [whole]
    exact upto.take kind own (formed (upto.worded (Token.Kind.ne_endOfInput_of_isLeaf kind)))
  have plain {p : Parser Expression} (kind : token.kind.fixed = true)
      (other : token.kind.isLeaf = false) (h : token.Worded → S.Adds State.ahead p) :
      S.Builds (fun s => S.Upto ns s ∧ s.current = token) p fun e => S.Past (ns ++ nodes e) := by
    rintro s ⟨upto, rfl⟩
    exact h (upto.worded_of_fixed kind) ns s (upto.pass other)
  have refuse {fault : SyntaxError.Fault} :
      S.Builds (fun s => S.Upto ns s ∧ s.current = token) (failHere fault)
        fun e : Expression => S.Past (ns ++ nodes e) :=
    builds_failHere fun _ h => h.1.toReached
  obtain ⟨kind, text, pos⟩ := token
  cases kind with
  | identifier => exact leaf rfl rfl rfl fun worded => ⟨rfl, worded.name rfl⟩
  | integer =>
    dsimp only
    split
    · rename_i value read
      exact leaf rfl rfl rfl fun worded => formed_integer worded rfl read
    · exact refuse
  | float =>
    dsimp only
    split
    · exact leaf rfl rfl rfl fun _ => trivial
    · exact refuse
  | verdadero => exact leaf rfl rfl rfl fun _ => iff_of_true rfl rfl
  | falso => exact leaf rfl rfl rfl fun _ => iff_of_false Bool.false_ne_true Token.Kind.noConfusion
  | string => exact leaf rfl rfl rfl fun worded => ⟨rfl, worded.string rfl⟩
  | bang => exact plain rfl rfl fun worded => adds_unary inner (worded.fixed rfl).symm
  | minus => exact plain rfl rfl fun worded => adds_unary inner (worded.fixed rfl).symm
  | leftParen => exact plain rfl rfl fun _ => adds_grouped inner
  | func =>
    refine plain rfl rfl fun _ ns => (adds_functionRest bound inner ns).bind fun rest => ?_
    exact builds_node (n := .expression (.function ⟨.func, text, pos⟩ rest.1 rest.2))
      (by simp [nodes, Expression.nodes, ← nodes_names]) rfl trivial
  | si => exact plain rfl rfl fun _ => adds_conditional limit inner _
  | leftCurly => exact plain rfl rfl fun _ => adds_object bound inner _
  | _ => exact refuse

theorem adds_arguments : S.Adds State.ahead (arguments bound inner) := by
  intro ns
  refine builds_peek_bind fun token => Builds.ite (fun closes => ?_) fun _ => ?_
  · exact (builds_advance (by rw [closes]; rfl)).bind fun _ => builds_parts (by simp)
  · have item := adds_nextExpression (S := S) inner .lowest
    exact ((item ns).pre fun _ h => h.1).bind fun first =>
      (item.commaSeparated bound _).bind fun more => (builds_expect_plain rfl).bind fun _ =>
        builds_parts (by simp)

/-- The target is kept already, as the expression before the equals sign. -/
theorem builds_assignment (token : Token) (left : Expression) :
    S.Builds (S.Past (ns ++ nodes left)) (assignment inner token left)
      fun e => S.Past (ns ++ nodes e) := by
  cases left with
  | identifier target =>
    exact (adds_nextExpression inner .lowest _).bind fun value =>
      builds_node (n := .expression (.assign token target value))
        (by simp [nodes, Expression.nodes]) rfl trivial
  | _ => exact builds_failHere fun _ h => h.toReached

theorem render_of_ofKind? {kind : Token.Kind} {op : BinaryOp}
    (h : BinaryOp.ofKind? kind = some op) : kind.fixed = true ∧ op.render = kind.render := by
  cases kind <;> cases h <;> exact ⟨rfl, rfl⟩

theorem builds_extend (left : Expression) :
    S.Builds (S.Past (ns ++ nodes left)) (extend bound inner left)
      fun e => S.Past (ns ++ nodes e) := by
  refine builds_current_bind fun token => ?_
  split
  · rename_i op stands
    obtain ⟨fixed, same⟩ := render_of_ofKind? stands
    rintro s ⟨past, rfl⟩
    have worded := past.worded_of_fixed fixed
    exact (adds_nextExpression inner _ _).bind (fun right =>
      builds_node (n := .expression (.binary s.current op left right))
        (by simp [nodes, Expression.nodes]) rfl (same.trans (worded.fixed fixed).symm)) s past
  · refine Builds.pre (P := S.Past (ns ++ nodes left)) ?_ fun _ h => h.1
    split
    · exact builds_assignment inner token left
    · exact (adds_arguments bound inner _).bind fun values =>
        builds_node (n := .expression (.call token left values))
          (by simp [nodes, Expression.nodes, nodesAll_expressions]) rfl trivial
    · -- the name is kept right before, so it is known to agree with its token
      exact (adds_expectIdentifier _).bind fun name => fun s past => by
        have formed : name.Formed := past.formed (.name name) (by simp [nodes])
        exact builds_node (n := .expression (.member token left (.identifier name) false))
          (by simp [nodes, Expression.nodes]) rfl ⟨name, rfl, formed.1.symm⟩ s past
    · exact (adds_nextExpression inner .lowest _).bind fun key =>
        (builds_expect_plain rfl).bind fun _ =>
          builds_node (n := .expression (.member token left key true))
            (by simp [nodes, Expression.nodes]) rfl trivial
    · exact builds_parts rfl

/-- A token that binds is no leaf. -/
theorem isLeaf_of_lt {power : BindingPower} {kind : Token.Kind} (binds : power < .ofKind kind) :
    kind.isLeaf = false := by
  cases kind with
  | identifier | integer | float | string | verdadero | falso =>
    exact absurd binds (Nat.not_lt_zero _)
  | _ => rfl

theorem builds_operators (power : BindingPower) (k : Nat) : ∀ left,
    S.Builds (S.Past (ns ++ nodes left)) (operators limit bound inner power k left)
      fun e => S.Past (ns ++ nodes e) := by
  induction k with
  | zero => exact fun _ => builds_exhausted
  | succ k ih =>
    intro left
    refine builds_peek_bind fun token => Builds.ite (fun binds => ?_) fun _ => ?_
    · exact (builds_enter limit (fun _ h => h.1.toReached) fun _ _ h => ⟨h.1.depth rfl, h.2⟩).bind
        fun _ => (builds_advance (isLeaf_of_lt binds)).bind fun _ =>
          (builds_extend bound inner left).bind ih
    · exact builds_pure fun _ h => h.1

theorem adds_expression (power : BindingPower) :
    S.Adds State.tokens (expression limit bound inner power) :=
  Adds.nested (fun ns => (adds_operand limit bound inner ns).bind fun left =>
    (builds_operators limit bound inner power bound left).keepingDepth) limit fun _ _ => rfl

/-! ## Statements -/

/-- The error about a constant without a value stands at its name, which was kept. -/
theorem builds_missingInitializer {name : Identifier} {Q : α → State → Prop} :
    S.Builds (S.Past (ns ++ nodes name)) (failAt name.token.pos (.missingInitializer name.name))
      Q := by
  intro s past
  have member : name.token ∈ S.tokens := past.mem (n := .name name) (by simp [nodes]) rfl
  exact ⟨⟨name.token, List.mem_append_left _ member, rfl⟩, past.toReached⟩

/-- A declaration agrees with its keyword. -/
theorem formed_declaration {token : Token} (name : Identifier) {value : Option Expression}
    (worded : token.Worded) (kind : token.kind = .var ∨ token.kind = .constant)
    (initial : token.kind = .constant → value.isSome) :
    (Statement.declaration token name value (token.kind = .constant)).Formed := by
  have spelled := worded.fixed (by rcases kind with kind | kind <;> rw [kind] <;> rfl)
  refine ⟨decide_eq_true_iff, ?_, fun constant => initial (of_decide_eq_true constant)⟩
  rw [spelled]
  rcases kind with kind | kind <;> rw [kind] <;> decide

theorem builds_declaration :
    S.Builds (fun s => S.Past ns s ∧ (s.current.kind = .var ∨ s.current.kind = .constant))
      (declaration inner) fun found => S.Past (ns ++ nodes found) := by
  refine builds_current_bind fun token => ?_
  rintro s ⟨⟨past, kind⟩, rfl⟩
  have worded := past.worded_of_fixed (by rcases kind with kind | kind <;> rw [kind] <;> rfl)
  refine (adds_expectIdentifier ns).bind (fun name => builds_peek_bind fun token =>
    Builds.ite (fun assigned => ?_) fun _ => ?_) s past
  · exact (builds_advance (by rw [assigned]; rfl)).bind fun _ =>
      (adds_nextExpression inner .lowest _).bind fun value => builds_skipSemicolon.bind fun _ =>
        builds_node (n := .statement (.declaration _ name (some value) _))
          (by simp [nodes, Statement.nodes, Expression.nodesOption]) rfl
          (formed_declaration name worded kind fun _ => rfl)
  · refine (builds_skipSemicolon.pre fun _ h => h.1).bind fun _ =>
      Builds.ite (fun _ => builds_missingInitializer) fun other => ?_
    exact builds_node (n := .statement (.declaration _ name none _))
      (by simp [nodes, Statement.nodes, Expression.nodesOption]) rfl
      (formed_declaration name worded kind fun constant => absurd (decide_eq_true constant) other)

theorem adds_resultValue : S.Adds State.ahead (resultValue inner) := by
  intro ns s past
  by_cases ends : s.peek.kind = .semicolon ∨ s.peek.kind = .rightCurly ∨ s.peek.kind = .endOfInput
  · rw [resultValue_of_end ends]
    show S.Past (ns ++ []) s
    rwa [List.append_nil]
  · obtain ⟨not_semicolon, not_closing, not_end⟩ := by simpa only [not_or] using ends
    rw [resultValue_of_ne not_semicolon not_closing not_end]
    exact (adds_nextExpression inner .lowest ns).map (f := some)
      (R := fun found => S.Past (ns ++ nodes found)) (fun _ _ past => past) s past

theorem adds_result : S.Adds State.ahead (result inner) := by
  intro ns
  refine builds_current_bind fun token => ?_
  exact ((adds_resultValue inner ns).pre fun _ h => h.1).bind fun value =>
    builds_skipSemicolon.bind fun _ => builds_node (n := .statement (.result token value))
      (by cases value <;> simp [nodes, Statement.nodes, Expression.nodesOption]) rfl trivial

theorem adds_function : S.Adds State.ahead (function bound inner) := by
  intro ns
  refine builds_current_bind fun token => ?_
  exact ((adds_expectIdentifier ns).pre fun _ h => h.1).bind fun name =>
    (adds_functionRest bound inner _).bind fun rest => builds_skipSemicolon.bind fun _ =>
      builds_node (n := .statement (.function token name rest.1 rest.2))
        (by simp [nodes, Statement.nodes, ← nodes_names]) rfl trivial

theorem adds_statement : S.Adds State.tokens (statement bound inner) := by
  intro ns s upto
  have some_of {p : Parser Statement} {P : State → Prop} (start : P s)
      (h : S.Builds P p fun found => S.Past (ns ++ nodes found)) :
      S.Ends (fun found => S.Past (ns ++ nodes found)) ((some <$> p) s) :=
    h.map (f := some) (R := fun found => S.Past (ns ++ nodes found)) (fun _ _ past => past) s start
  by_cases semicolon : s.current.kind = .semicolon
  · rw [statement_of_semicolon semicolon]
    show S.Past (ns ++ []) s
    rw [List.append_nil]
    exact upto.pass (by rw [semicolon]; rfl)
  by_cases declares : s.current.kind = .var ∨ s.current.kind = .constant
  · rw [statement_of_declaration declares]
    refine some_of ⟨upto.pass ?_, declares⟩ (builds_declaration inner)
    rcases declares with kind | kind <;> rw [kind] <;> rfl
  by_cases returns : s.current.kind = .regresa
  · rw [statement_of_regresa returns]
    exact some_of (upto.pass (by rw [returns]; rfl)) (adds_result inner ns)
  by_cases named : s.current.kind = .func ∧ s.peek.kind = .identifier
  · rw [statement_of_func named.1 named.2]
    exact some_of (upto.pass (by rw [named.1]; rfl)) (adds_function bound inner ns)
  obtain ⟨not_var, not_constant⟩ := not_or.1 declares
  rw [statement_of_ne semicolon not_var not_constant returns named]
  exact (deeper.expression .lowest ns).bind (fun value => builds_skipSemicolon.bind fun _ =>
    builds_node (n := .statement (.expression s.current value))
      (by simp [nodes, Statement.nodes]) rfl trivial) s upto

variable [inner.Onward]

theorem builds_item (recovers : S.Recovers) :
    S.Builds (S.Upto ns) (item bound inner) fun found => S.Upto (ns ++ nodes found) :=
  ((adds_statement bound inner).recovering recovers ns).bind fun found s upto => by
    show S.Upto (ns ++ nodes found.toList) s.advance
    rwa [nodes_toList]

/-- A block that is not closed is reported at the token that opened it. -/
theorem builds_blockItem {token : Token} (opened : token ∈ S.tokens ++ [S.finish])
    (recovers : S.Recovers) :
    S.Builds (S.Upto ns) (blockItem bound inner token) (Round S.Upto S.Past ns) := by
  intro s upto
  by_cases closing : s.current.kind = .rightCurly
  · rw [blockItem_of_rightCurly token closing]
    exact upto.pass (by rw [closing]; rfl)
  by_cases ended : s.current.kind = .endOfInput
  · rw [blockItem_of_endOfInput token ended]
    exact ⟨⟨token, opened, rfl⟩, upto.toReached⟩
  · rw [blockItem_of_ne token closing ended]
    exact (builds_item bound inner recovers).map (f := some) (R := Round S.Upto S.Past ns)
      (fun _ _ kept => kept) s upto

theorem builds_block : S.Builds (fun s => S.Past ns s ∧ S.Recovers) (block bound inner)
    fun body => S.Past (ns ++ nodes body) := by
  rintro s ⟨past, recovers⟩
  rw [block, current_bind, advance_bind]
  have rounds (ns : List Node) : S.Builds (S.Upto ns) (blockItem bound inner s.current)
      (Round S.Upto S.Past ns) := builds_blockItem bound inner past.current_mem recovers
  exact (builds_collect rounds bound ns).bind (fun statements =>
    builds_parts (by simp [nodes, Block.nodes, nodesAll_statements])) s.advance past.advance

theorem builds_programItem (recovers : S.Recovers) :
    S.Builds (S.Upto ns) (programItem bound inner) (Round S.Upto S.Upto ns) := by
  intro s upto
  by_cases ended : s.current.kind = .endOfInput
  · rw [programItem_of_endOfInput ended]
    exact upto
  · rw [programItem_of_ne ended]
    exact (builds_item bound inner recovers).map (f := some) (R := Round S.Upto S.Upto ns)
      (fun _ _ kept => kept) s upto

end Productions

instance (limit n : Nat) : S.Inner (Productions.upTo limit n) := by
  induction n with
  | zero =>
    exact ⟨fun _ _ => builds_exhausted, fun _ => builds_exhausted, fun _ _ => builds_exhausted⟩
  | succ n ih =>
    exact ⟨adds_expression limit (n + 1) _, fun _ => builds_block (n + 1) _,
      adds_conditional limit _⟩

/-! ## Programs -/

/-- Where the text starts, all of it is left. -/
theorem upto_start (tokens : s.tokens = S.tokens) (finish : s.finish = S.finish)
    (clean : s.errors = #[]) : S.Upto [] s where
  tokens := tokens ▸ List.suffix_refl _
  finish := finish
  errors := by simp [clean]
  recovers recorded := absurd clean recorded
  formed := by simp
  leaves := tokens ▸ List.Sublist.refl _
  whole _ := tokens ▸ rfl

/-- At the end of input, the nodes of the program have been kept of all the text. -/
theorem kept_program {limit : Nat} {p : Program} {t : State} (recovers : S.Recovers)
    (run : program limit (.ofScanned S.toScanned) = .ok p t) :
    S.Upto p.nodes t ∧ t.tokens = [] := by
  have ended : t.current.kind = .endOfInput := current_of_collect _ run
  have start : S.Upto [] (.ofScanned S.toScanned) := upto_start rfl rfl rfl
  have ends := builds_collect (fun _ => builds_programItem (S.tokens.length + 2)
    (Productions.upTo limit (S.tokens.length + 1)) recovers) (S.tokens.length + 2) [] _ start
  have same : collect (programItem (S.tokens.length + 2)
      (Productions.upTo limit (S.tokens.length + 1))) (S.tokens.length + 2)
      (.ofScanned S.toScanned) = .ok p t := run
  rw [same] at ends
  have kept : S.Upto p.nodes t := by
    rw [Program.nodes, nodesAll_statements]
    exact ends
  have sane : t.Sane := ⟨kept.finish ▸ S.ended, fun u left =>
    (S.worded u (kept.tokens.subset left)).toLexed⟩
  exact ⟨kept, sane.tokens_eq_nil ended⟩

end Source

theorem kept_parse (limit : Nat) (source : String) : ∃ t,
    (Source.ofString source).Upto (parse limit source).program.nodes t ∧ t.tokens = [] ∧
      (parse limit source).errors = t.errors.toList := by
  obtain ⟨p, t, run⟩ := program_eq_ok limit (State.sane_ofScanned source).finish
  have read : parse limit source = ⟨p, t.errors.toList⟩ := by
    rw [parse, Scanned.parse, EStateM.run, run]
  obtain ⟨kept, none⟩ := Source.kept_program (S := .ofString source) (.inl trivial) run
  rw [read]
  exact ⟨t, kept, none, rfl⟩

end Parser

open scoped List

/-- **Nothing is lost, doubled or moved.**  The names and literals of a program are tokens of its
text, each at most once and in their order, also where there are syntax errors; and where there are
none they are all the names and literals of the text. -/
theorem leaves_in_order (limit : Nat) (source : String) :
    (parse limit source).program.leaves <+ tokenize source ∧
      (parse limit source).program.leaves.Pairwise (fun t u => t.pos.offset < u.pos.offset) ∧
      ((parse limit source).errors = [] →
        (parse limit source).program.leaves = (tokenize source).filter Token.isLeaf) := by
  obtain ⟨t, kept, none, errors⟩ := Parser.kept_parse limit source
  have leaves := kept.leaves
  have whole := kept.whole
  rw [none, List.filter_nil, List.append_nil] at leaves whole
  have sublist : (parse limit source).program.leaves <+ tokenize source :=
    leaves.trans (List.filter_sublist.trans (List.sublist_append_left _ _))
  refine ⟨sublist, (tiles_tokenize source).offset_lt.sublist sublist, fun clean => ?_⟩
  have last : (scan source).finish.isLeaf = false := by
    rw [Token.isLeaf, kind_finish_scan]
    rfl
  have all : (tokenize source).filter Token.isLeaf =
      (scan source).tokens.filter Token.isLeaf := by
    simp [tokenize, last]
  rw [all]
  exact whole (Array.toList_eq_nil_iff.1 (errors.symm.trans clean))

/-- Every place where a name or a literal can stand, without an error. -/
theorem leaves_in_order_clean :
    let source :=
      "let f = func(a, b) \x7b regresa a.k + 1.5 \x7d; x = \x7bk: \"s\", y\x7d; f(x, falso)"
    (parse 64 source).errors = [] ∧
      (parse 64 source).program.leaves = (tokenize source).filter Token.isLeaf ∧
      (parse 64 source).program.leaves.map Token.text =
        ["f", "a", "b", "a", "k", "1.5", "x", "k", "s", "y", "f", "x", "falso"] := by
  intro source
  have clean : (parse 64 source).errors = [] := by decide +kernel
  exact ⟨clean, (leaves_in_order 64 source).2.2 clean, by decide +kernel⟩

/-- **Trees are well formed.**  Every node of a program agrees with its token, with or without
syntax errors, and every error stands at a token of the text. -/
theorem trees_well_formed (limit : Nat) (source : String) :
    (∀ n ∈ (parse limit source).program.nodes, n.Formed) ∧
      ∀ e ∈ (parse limit source).errors, ∃ t ∈ tokenize source, e.pos = t.pos := by
  obtain ⟨t, kept, -, errors⟩ := Parser.kept_parse limit source
  refine ⟨kept.formed, fun e member => ?_⟩
  rw [errors] at member
  exact kept.errors e member

end Guion
