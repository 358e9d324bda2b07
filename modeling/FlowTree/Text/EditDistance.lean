/-!
Edit distance: the least number of insertions, deletions and substitutions that turn one list into
another, computed a row at a time, and the names that are near a misspelt one.
-/

namespace FlowTree.Text

/-- The costs in the row of `x` after its first entry. `left` is the cost to the left, `diagonal` the
one above it, and `above` holds the rest of the row before. -/
def costsAfter {α : Type} [BEq α] (x : α) : (left diagonal : Nat) → (above : List Nat) → List α → List Nat
  | left, diagonal, up :: above, y :: ys =>
    let cost := min (min (up + 1) (left + 1)) (diagonal + if x == y then 0 else 1)
    cost :: costsAfter x cost up above ys
  | _, _, _, _ => []

/-- The row of `x`, from the row before it. Entry `j` of a row is the distance from the elements so far
to the first `j` elements of `ys`. -/
def nextCosts {α : Type} [BEq α] (ys : List α) (costs : List Nat) (x : α) : List Nat :=
  match costs with
  | [] => []
  | first :: above => (first + 1) :: costsAfter x (first + 1) first above ys

/-- The least number of single-element edits that turn `xs` into `ys`. -/
def editDistance {α : Type} [BEq α] (xs ys : List α) : Nat :=
  (xs.foldl (nextCosts ys) (List.range (ys.length + 1))).getLastD 0

/-- The distance of two names, counted in bytes. -/
def nameDistance (a b : String) : Nat := editDistance a.toUTF8.toList b.toUTF8.toList

/-- The candidate has more than two bytes and is within two edits of the target. -/
def isSimilar (target candidate : List UInt8) : Bool := editDistance target candidate ≤ 2 && 2 < candidate.length

def similarNames (name : String) (candidates : List String) : List String :=
  candidates.filter fun candidate => isSimilar name.toUTF8.toList candidate.toUTF8.toList

end FlowTree.Text
