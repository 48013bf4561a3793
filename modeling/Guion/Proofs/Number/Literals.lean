import Guion.Number.Reading
import Mathlib.Data.List.TakeWhile

/-!
# Reading literals

Runs of digits are read as their decimal value where it fits, and digits with a point as the double
nearest to their decimal.
-/

set_option autoImplicit false

namespace Guion.Number

/-- What starts with a digit has no sign. -/
theorem splitSign_of_isDigit {c : Char} {cs : List Char} (h : isDigit c) :
    splitSign (c :: cs) = (false, c :: cs) := by
  unfold splitSign
  split
  · rename_i same
    cases same
    exact absurd h (by decide)
  · rename_i same
    cases same
    exact absurd h (by decide)
  · rfl

/-- A run of digits is read as its decimal value, if that has 63 bits. -/
theorem readInteger?_of_digits {text : String} (some_digit : text.toList ≠ [])
    (digits : text.toList.all isDigit) :
    readInteger? text =
      if ofDigits text.toList < Nat.pow 2 63 then some (ofDigits text.toList : Int) else none := by
  rw [readInteger?]
  cases run : text.toList with
  | nil => exact absurd run some_digit
  | cons c cs =>
    rw [run] at digits
    have first : isDigit c := by simp_all
    -- no sign is taken off, so the digits are all of the text
    rw [splitSign_of_isDigit first]
    simp [digits]

theorem toLower_of_isDigit {c : Char} (h : isDigit c) : c.toLower = c := by
  simp only [isDigit, Bool.and_eq_true, decide_eq_true_eq, Char.le_def,
    UInt32.le_iff_toNat_le] at h
  have nine : '9'.val.toNat = 57 := rfl
  have upper : 'A'.val.toNat = 65 := rfl
  -- only what is at least `A` has a lower case of its own
  refine dif_neg fun letter => ?_
  have above := UInt32.le_iff_toNat_le.1 letter.1
  omega

/-- No name of a number starts with a digit. -/
theorem readName?_of_isDigit {c : Char} {cs : List Char} (h : isDigit c) :
    readName? (c :: cs) = none := by
  have differs (name : String) (d : Char) (ds : List Char) (spelled : name.toList = d :: ds)
      (letter : isDigit d = false) : String.ofList ((c :: cs).map Char.toLower) ≠ name := by
    intro same
    have first : c.toLower :: cs.map Char.toLower = d :: ds := by
      rw [← spelled, ← same, String.toList_ofList, List.map_cons]
    rw [toLower_of_isDigit h] at first
    obtain ⟨rfl, -⟩ := List.cons.inj first
    rw [h] at letter
    cases letter
  rw [readName?]
  split
  · rename_i same
    exact absurd same (differs _ 'i' _ rfl (by decide))
  · rename_i same
    exact absurd same (differs _ 'i' _ rfl (by decide))
  · rename_i same
    exact absurd same (differs _ 'n' _ rfl (by decide))
  · rfl

theorem readUnsigned?_of_decimal {whole fraction : List Char} (some_digit : whole ≠ [])
    (digits : whole.all isDigit) (places : fraction.all isDigit) :
    readUnsigned? (whole ++ '.' :: fraction) =
      some (nearest (ofDigits (whole ++ fraction)) (-fraction.length)) := by
  have all_digits : ∀ c ∈ whole, isDigit c := by simpa using digits
  have all_places : ∀ c ∈ fraction, isDigit c := by simpa using places
  have point : isDigit '.' = false := by decide
  have taken : (whole ++ '.' :: fraction).takeWhile isDigit = whole := by
    rw [List.takeWhile_append_of_pos all_digits]
    simp [point]
  have left : (whole ++ '.' :: fraction).dropWhile isDigit = '.' :: fraction := by
    rw [List.dropWhile_append_of_pos all_digits]
    simp [point]
  have taken_places : fraction.takeWhile isDigit = fraction :=
    List.takeWhile_eq_self_iff.2 all_places
  have nothing_left : fraction.dropWhile isDigit = [] := List.dropWhile_eq_nil_iff.2 all_places
  -- nothing is left for an exponent
  simp only [readUnsigned?, taken, left, taken_places, nothing_left]
  simp [some_digit, readExponent?]

/-- Digits with a point are read as the double nearest to their decimal. -/
theorem read?_of_decimal {text : String} {whole fraction : List Char}
    (spelled : text.toList = whole ++ '.' :: fraction) (some_digit : whole ≠ [])
    (digits : whole.all isDigit) (places : fraction.all isDigit) :
    read? text = some (nearest (ofDigits (whole ++ fraction)) (-fraction.length)) := by
  obtain ⟨c, cs, rfl⟩ := List.exists_cons_of_ne_nil some_digit
  have first : isDigit c := by simp_all
  rw [read?]
  rw [spelled, List.cons_append, splitSign_of_isDigit first]
  simp only [readName?_of_isDigit first, Option.none_or]
  rw [← List.cons_append, readUnsigned?_of_decimal some_digit digits places]
  simp

end Guion.Number
