import Guion.Proofs.Token.Munch

/-!
# Wording of scanned tokens

What the kind of a scanned token says about its text: a name is a run of letters that is not
reserved, a string has no quote in it, and a token of a kind with a single spelling has that
spelling (`worded_scan`).
-/

set_option autoImplicit false

namespace Guion

open Munch

/-- The tokens of the kind are all spelled alike. -/
def Token.Kind.fixed : Token.Kind → Bool
  | .endOfInput | .illegal | .identifier | .integer | .float | .string => false
  | _ => true

theorem Token.Kind.ne_endOfInput_of_fixed {kind : Token.Kind} (h : kind.fixed = true) :
    kind ≠ .endOfInput := by
  rintro rfl
  cases h

/-- A token with the text that its kind asks for, whichever kind it is. -/
structure Token.Worded (t : Token) : Prop extends t.Lexed where
  name : t.kind = .identifier →
    Run Letter t.text.toList ∧ ∀ kind, (t.text, kind) ∉ Token.keywords
  string : t.kind = .string → '"' ∉ t.text.toList
  fixed : t.kind.fixed = true → t.text = t.kind.render

/-- What has the spelling of its kind needs no other wording. -/
theorem Token.Lexed.worded_of_fixed {t : Token} (lexed : t.Lexed)
    (spelled : t.kind.fixed = true ∧ t.text = t.kind.render) : t.Worded := by
  refine ⟨lexed, fun kind => ?_, fun kind => ?_, fun _ => spelled.2⟩
  all_goals
    have fixed := spelled.1
    rw [kind] at fixed
    cases fixed

namespace Munch

/-- Reserved words and marks are spelled as their kinds are named. -/
theorem spelled_of_listed : ∀ entry ∈ Token.keywords ++ marks,
    entry.2.fixed = true ∧ entry.1 = entry.2.render := by
  decide

/-- A spelling has the wording of the token that it spells. -/
theorem Spells.worded {rest front : List Char} {kind : Token.Kind} {word : String} {pos : Position}
    (h : Spells rest kind word front) (lexed : Token.Lexed ⟨kind, word, pos⟩) :
    Token.Worded ⟨kind, word, pos⟩ := by
  cases h with
  | word letters named =>
    cases named with
    | reserved listed =>
      exact lexed.worded_of_fixed (spelled_of_listed _ (List.mem_append_left _ listed))
    | free unlisted => exact ⟨lexed, fun _ => ⟨by simpa using letters, unlisted⟩, nofun, nofun⟩
  | integer _ | float _ _ | point _ | unclosed _ _ => exact ⟨lexed, nofun, nofun, nofun⟩
  | string plain => exact ⟨lexed, nofun, fun _ => by simpa using plain, nofun⟩
  | mark listed =>
    exact lexed.worded_of_fixed (spelled_of_listed _ (List.mem_append_right _ listed))

end Munch

theorem Cursor.worded_next {c : Cursor} (h : c.next.1.kind ≠ .endOfInput) : c.next.1.Worded := by
  have lexed := Cursor.lexed_next h
  cases left : c.skipLayout.rest with
  | nil =>
    rw [next_of_nil left] at h
    exact absurd rfl h
  | cons ch cs =>
    rw [next_of_cons left] at lexed ⊢
    rcases spells_first ch cs with spells | ⟨single, -⟩
    · exact spells.worded lexed
    · -- a character that spells nothing is an illegal token
      rw [single] at lexed ⊢
      exact ⟨lexed, nofun, nofun, nofun⟩

/-- The tokens of a text have the wording that their kinds ask for. -/
theorem worded_scan (source : String) : ∀ t ∈ (scan source).tokens, t.Worded :=
  Cursor.forall_scan (fun _ => Cursor.worded_next) _

end Guion
