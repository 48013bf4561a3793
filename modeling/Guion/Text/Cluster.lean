import Guion.Text.ClusterBreak

/-!
# Clusters

Text cut into what a reader takes for single characters, by the Unicode rules for extended
grapheme clusters.  Cutting loses nothing: the clusters joined are the text (`flatten_clusters`).
-/

set_option autoImplicit false

namespace Guion.Text

/-- How far a cluster has come towards joining one more character of a kind. -/
inductive Progress where
  | absent
  | started
  | ready
deriving Repr, DecidableEq

/-- What the rules need to know of the cluster before a possible cut. -/
structure Context where
  last : BreakClass
  /-- Started by a pictograph and its marks, ready after a joiner. -/
  picture : Progress
  /-- Started by a consonant and its marks, ready once one of the marks is a linker. -/
  conjunct : Progress
  /-- The cluster ends in half a flag. -/
  halfFlag : Bool
deriving Repr, DecidableEq

/-- The progress of a sequence of pictographs with one more character. -/
def nextPicture (before : Progress) : BreakClass → Progress
  | .pictograph => .started
  | .extend | .linker | .nonJoiner => if before = .started then .started else .absent
  | .joiner => if before = .started then .ready else .absent
  | _ => .absent

/-- The progress of a conjunct with one more character. -/
def nextConjunct (before : Progress) : BreakClass → Progress
  | .consonant => .started
  | .linker => if before = .absent then .absent else .ready
  | .extend | .joiner => before
  | _ => .absent

namespace Context

/-- The context after the first character of a cluster. -/
def start (k : BreakClass) : Context :=
  ⟨k, nextPicture .absent k, nextConjunct .absent k, k = .regional⟩

/-- The context after one more character of the same cluster. -/
def next (context : Context) (k : BreakClass) : Context :=
  ⟨k, nextPicture context.picture k, nextConjunct context.conjunct k,
    k = .regional && !context.halfFlag⟩

/-- Whether a character of class `k` belongs to the cluster before it. -/
def joins (context : Context) (k : BreakClass) : Bool :=
  match context.last, k with
  | .carriageReturn, .lineFeed => true
  | .carriageReturn, _ | .lineFeed, _ | .control, _ => false
  | _, .carriageReturn | _, .lineFeed | _, .control => false
  | .leading, .leading | .leading, .vowel | .leading, .openSyllable
  | .leading, .closedSyllable => true
  | .openSyllable, .vowel | .openSyllable, .trailing | .vowel, .vowel | .vowel, .trailing => true
  | .closedSyllable, .trailing | .trailing, .trailing => true
  | _, .extend | _, .linker | _, .nonJoiner | _, .joiner | _, .spacing => true
  | .prepended, _ => true
  | _, .consonant => context.conjunct = .ready
  | _, .pictograph => context.picture = .ready
  | _, .regional => context.halfFlag
  | _, _ => false

end Context

/-- Cuts the text after an unfinished cluster, whose characters stand in reverse. -/
def clustersAfter (context : Context) (cluster : List Char) : List Char → List (List Char)
  | [] => [cluster.reverse]
  | c :: cs =>
    let k := BreakClass.of c
    if context.joins k then clustersAfter (context.next k) (c :: cluster) cs
    else cluster.reverse :: clustersAfter (.start k) [c] cs

/-- The clusters of a text. -/
def clusters : List Char → List (List Char)
  | [] => []
  | c :: cs => clustersAfter (.start (.of c)) [c] cs

theorem flatten_clustersAfter (context : Context) (cluster cs : List Char) :
    (clustersAfter context cluster cs).flatten = cluster.reverse ++ cs := by
  induction cs generalizing context cluster with
  | nil => simp [clustersAfter]
  | cons c cs ih =>
    simp only [clustersAfter]
    split <;> simp [ih]

/-- The clusters joined are the text. -/
theorem flatten_clusters (cs : List Char) : (clusters cs).flatten = cs := by
  cases cs with
  | nil => rfl
  | cons c cs => simp [clusters, flatten_clustersAfter]

end Guion.Text
