import Guion.Text.Cluster

/-!
# Typed lines

A line of input may hold backspaces, each of which takes back the cluster before it.
-/

set_option autoImplicit false

namespace Guion.Text

/-- The character that takes back what stands before it. -/
def backspace : Char := '\x08'

/-- What is left of a line so far. -/
structure Typed where
  /-- The characters kept, the last one first. -/
  kept : List Char
  /-- The sizes in bytes of the clusters that can be taken back, the last one first.  A size is
  remembered in eight bits. -/
  sizes : List Nat
deriving Repr, DecidableEq

/-- The size of a text in bytes of UTF-8. -/
def byteSize (cs : List Char) : Nat := cs.foldl (fun n c => n + c.utf8Size) 0

/-- Drops characters that make up `n` bytes. -/
def dropBytes (n : Nat) : List Char → List Char
  | [] => []
  | c :: cs => if n = 0 then c :: cs else dropBytes (n - c.utf8Size) cs

/-- Types one more cluster. -/
def Typed.type (line : Typed) (cluster : List Char) : Typed :=
  if cluster = [backspace] then
    match line.sizes with
    | [] => line
    | n :: sizes => ⟨dropBytes n line.kept, sizes⟩
  else ⟨cluster.reverse ++ line.kept, byteSize cluster % 256 :: line.sizes⟩

/-- The line with its backspaces carried out. -/
def typed (line : String) : String :=
  String.ofList ((clusters line.toList).foldl Typed.type ⟨[], []⟩).kept.reverse

end Guion.Text
