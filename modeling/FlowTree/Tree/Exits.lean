/-!
Exits: the loose ends of a stretch of control flow. They record the edges that leave it, grouped by the
block they lead to, and the blocks in it that leave the function. Targets and the edges to each of them
stand in the order in which they were first seen.
-/

namespace FlowTree

/-- Edges that leave a stretch, by the block they lead to, and blocks that leave the function. -/
structure Exits (β ε : Type) where
  targets : List (β × List ε) := []
  returnOrKill : List β := []
  deriving DecidableEq, Repr, Inhabited

namespace Exits

variable {β ε : Type} [DecidableEq β] [DecidableEq ε]

/-- Add an edge to a group of targets: behind the edges to the same block, unless it is among them, and
as a new target when there is none. -/
def insert (target : β) (edge : ε) : List (β × List ε) → List (β × List ε)
  | [] => [(target, [edge])]
  | (t, edges) :: rest =>
    if t = target then (t, if edge ∈ edges then edges else edges ++ [edge]) :: rest
    else (t, edges) :: insert target edge rest

/-- Record an edge that leaves for the target. -/
def add (x : Exits β ε) (target : β) (edge : ε) : Exits β ε :=
  { x with targets := insert target edge x.targets }

/-- Record edges that leave for the target. -/
def addAll (x : Exits β ε) (target : β) (edges : List ε) : Exits β ε :=
  edges.foldl (fun x e => x.add target e) x

/-- Record blocks that leave the function. -/
def addReturns (x : Exits β ε) (blocks : List β) : Exits β ε :=
  { x with returnOrKill := x.returnOrKill ++ blocks }

/-- Add the loose ends of another stretch behind those of this one. -/
def merge (x y : Exits β ε) : Exits β ε :=
  (y.targets.foldl (fun x (target, edges) => x.addAll target edges) x).addReturns y.returnOrKill

/-- Forget a target. -/
def remove (x : Exits β ε) (target : β) : Exits β ε :=
  { x with targets := x.targets.filter (·.1 ≠ target) }

/-- The edges that leave for the target. -/
def edges (x : Exits β ε) (target : β) : List ε := (x.targets.lookup target).getD []

/-- An edge leaves for the target. -/
def has (x : Exits β ε) (target : β) : Bool := x.targets.any (·.1 = target)

/-- The targets in the order in which they were first seen. -/
def targetList (x : Exits β ε) : List β := x.targets.map (·.1)

/-- No edge leaves. -/
def isEmpty (x : Exits β ε) : Bool := x.targets.isEmpty

end Exits

end FlowTree
