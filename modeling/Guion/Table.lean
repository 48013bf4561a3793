/-!
# Tables

Finite maps from names, kept as lists in the order of their keys.  The order is that of the
characters' code points, which is also the byte order of UTF-8.
-/

set_option autoImplicit false

namespace Guion

/-- Entries in the order of their keys. -/
abbrev Table (α : Type) : Type := List (String × α)

namespace Table

variable {α : Type}

/-- The entry at `key`, if any. -/
def find? (key : String) : Table α → Option α
  | [] => none
  | (k, v) :: rest => if key = k then some v else find? key rest

/-- Sets the entry at `key`. -/
def insert (key : String) (value : α) : Table α → Table α
  | [] => [(key, value)]
  | (k, v) :: rest =>
    if key < k then (key, value) :: (k, v) :: rest
    else if key = k then (key, value) :: rest
    else (k, v) :: insert key value rest

/-- Setting an entry changes that entry and no other. -/
theorem find?_insert (table : Table α) (key query : String) (value : α) :
    (table.insert key value).find? query =
      if query = key then some value else table.find? query := by
  induction table with
  | nil => rfl
  | cons entry rest ih =>
    obtain ⟨k, v⟩ := entry
    simp only [insert]
    split
    · rfl
    · split
      · rename_i same
        subst same
        simp only [find?]
        split <;> rfl
      · rename_i differs
        simp only [find?, ih]
        by_cases h : query = k
        · simp [h, Ne.symm differs]
        · simp [h]

/-- Sets all entries in turn, so that of two with one key the later stays. -/
def ofList (entries : List (String × α)) : Table α :=
  entries.foldl (fun table (key, value) => table.insert key value) []

/-- What is found is an entry. -/
theorem mem_of_find? {key : String} {value : α} {table : Table α}
    (found : table.find? key = some value) : (key, value) ∈ table := by
  induction table with
  | nil => cases found
  | cons entry rest ih =>
    obtain ⟨k, v⟩ := entry
    simp only [find?] at found
    split at found
    · rename_i same
      cases found
      rw [same]
      exact List.mem_cons_self
    · exact List.mem_cons_of_mem _ (ih found)

/-- Setting an entry adds no other. -/
theorem mem_of_mem_insert {key : String} {value : α} {table : Table α} {entry : String × α}
    (h : entry ∈ table.insert key value) : entry = (key, value) ∨ entry ∈ table := by
  induction table with
  | nil => exact .inl (List.mem_singleton.1 h)
  | cons first rest ih =>
    obtain ⟨k, v⟩ := first
    simp only [insert] at h
    split at h
    · exact List.mem_cons.1 h
    · split at h
      · rcases List.mem_cons.1 h with new | old
        · exact .inl new
        · exact .inr (List.mem_cons_of_mem _ old)
      · rcases List.mem_cons.1 h with same | later
        · exact .inr (same ▸ List.mem_cons_self)
        · rcases ih later with new | old
          · exact .inl new
          · exact .inr (List.mem_cons_of_mem _ old)

/-- The entries of a table made from a list are among those of the list. -/
theorem mem_of_mem_ofList {entries : List (String × α)} {entry : String × α} :
    entry ∈ ofList entries → entry ∈ entries := by
  have from_either (table : Table α) :
      entry ∈ entries.foldl (fun table (key, value) => table.insert key value) table →
        entry ∈ table ∨ entry ∈ entries := by
    induction entries generalizing table with
    | nil => exact .inl
    | cons first rest ih =>
      intro later
      rcases ih _ later with inserted | old
      · rcases mem_of_mem_insert inserted with rfl | old
        · exact .inr List.mem_cons_self
        · exact .inl old
      · exact .inr (List.mem_cons_of_mem _ old)
  intro h
  rcases from_either [] h with old | new
  · cases old
  · exact new

/-- A table made from a list has an entry exactly at the keys of the list. -/
theorem isSome_find?_ofList {entries : List (String × α)} {key : String} :
    ((ofList entries).find? key).isSome ↔ ∃ value, (key, value) ∈ entries := by
  constructor
  · intro found
    obtain ⟨value, found⟩ := Option.isSome_iff_exists.1 found
    exact ⟨value, mem_of_mem_ofList (mem_of_find? found)⟩
  · have onto (table : Table α) (h : (table.find? key).isSome ∨ ∃ value, (key, value) ∈ entries) :
        ((entries.foldl (fun table (key, value) => table.insert key value) table).find?
          key).isSome := by
      induction entries generalizing table with
      | nil => simpa using h
      | cons first rest ih =>
        obtain ⟨k, v⟩ := first
        refine ih _ ?_
        rw [find?_insert]
        by_cases same : key = k
        · exact .inl (by rw [if_pos same]; rfl)
        · rw [if_neg same]
          refine h.imp_right fun ⟨value, listed⟩ => ⟨value, ?_⟩
          rcases List.mem_cons.1 listed with here | later
          · exact absurd (congrArg Prod.fst here) same
          · exact later
    exact fun listed => onto [] (.inr listed)

end Table

end Guion
