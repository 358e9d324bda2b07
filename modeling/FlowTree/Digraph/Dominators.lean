import FlowTree.Digraph.Traversal

/-!
Dominators. Immediate dominators are found by iteration: in reverse postorder, each vertex gets the
nearest common ancestor of its predecessors in the tree so far, until a pass changes nothing. A
traversal of the final tree numbers when each vertex is entered and left; a vertex dominates those
whose visit lies within its own.
-/

namespace FlowTree

/-- The dominator tree of the vertices that can be reached from its root. -/
structure Dominators where
  root : Nat
  /-- The immediate dominator of each vertex: none for the root and for vertices out of reach. -/
  idom : Array (Option Nat)
  /-- The vertices in reach, in reverse postorder. -/
  rpo : List Nat
  /-- The vertices that each vertex immediately dominates. -/
  children : Array (List Nat)
  /-- When a traversal of the tree enters and leaves each vertex. -/
  entered : Array (Option Nat)
  left : Array (Option Nat)
  deriving DecidableEq, Repr

namespace Dominators

/-- Links from vertices to the vertices above them. The root is linked to itself. -/
abbrev Links := Array (Option Nat)

/-- The nearest common ancestor of two vertices. Of two different vertices the one with the lower
postorder number goes up. There is none when a link is missing or when the steps are too few. -/
def meet (number : Array Nat) (links : Links) : (steps : Nat) → Nat → Nat → Option Nat
  | 0, _, _ => none
  | steps + 1, u, v =>
    if u = v then some u
    else do
      let a ← number[u]?
      let b ← number[v]?
      if a < b then meet number links steps (← links[u]?.join) v
      else meet number links steps u (← links[v]?.join)

/-- The meet of the vertices so far with one more, which is left out when it has no link. -/
def meetNext (number : Array Nat) (links : Links) (d? : Option Nat) (p : Nat) : Option (Option Nat) := do
  let link? ← links[p]?
  match link?, d? with
  | none, _ => some d?
  | some _, none => some (some p)
  -- Each step takes one of the two up, so that twice the number of vertices is enough.
  | some _, some d => (meet number links (2 * links.size) p d).map some

/-- The meet of a vertex's predecessors, those without a link left out. -/
def meetAll (number : Array Nat) (links : Links) (preds : List Nat) : Option (Option Nat) :=
  preds.foldlM (meetNext number links) none

/-- Link a vertex to the meet of its predecessors. -/
def relink (number : Array Nat) (preds : Array (List Nat)) (links : Links) (v : Nat) : Option Links := do
  let d? ← meetAll number links (← preds[v]?)
  some (links.setIfInBounds v d?)

/-- One pass: link each vertex anew, in the order given. -/
def pass (number : Array Nat) (preds : Array (List Nat)) (order : List Nat) (links : Links) : Option Links :=
  order.foldlM (relink number preds) links

/-- Repeat a pass until it changes nothing. There is no result when more than `passes` are needed. -/
def settle (step : Links → Option Links) : (passes : Nat) → Links → Option Links
  | 0, _ => none
  | passes + 1, links => do
    let next ← step links
    if next = links then some links else settle step passes next

end Dominators

open Dominators in
/-- The links to immediate dominators, the root linked to itself, found from the predecessors of each
vertex. -/
def Digraph.linksFrom? (g : Digraph) (preds : Array (List Nat)) (root : Nat) : Option Links :=
  let po := g.postorder root
  let number := (Array.range g.size).map po.idxOf
  let start := (Array.replicate g.size none).setIfInBounds root (some root)
  -- Every pass but the last takes a link up, which each link allows at most once for every vertex.
  settle (pass number preds po.reverse.tail) (g.size * g.size + 1) start

open Dominators in
/-- The links to immediate dominators, the root linked to itself. -/
def Digraph.dominatorLinks? (g : Digraph) (root : Nat) : Option Links := g.linksFrom? g.sources root

open Dominators in
/-- The tree that links give, with its traversal. -/
def Digraph.dominatorTree (g : Digraph) (root : Nat) (links : Links) : Dominators :=
  let rpo := (g.postorder root).reverse
  let idom := links.setIfInBounds root none
  let children := (Array.range g.size).map fun v => rpo.filter fun w => idom[w]?.join = some v
  let tour := Digraph.visits ⟨children⟩ root
  { root, idom, rpo, children
    entered := (Array.range g.size).map fun v => tour.idxOf? (.enter v)
    left := (Array.range g.size).map fun v => tour.idxOf? (.leave v) }

/-- The dominator tree rooted at a vertex of the graph, found from the predecessors of each vertex. -/
def Digraph.dominatorsFrom (g : Digraph) (preds : Array (List Nat)) (root : Nat) : Dominators :=
  g.dominatorTree root ((g.linksFrom? preds root).getD #[])

/-- The dominator tree rooted at a vertex of the graph. -/
def Digraph.dominators (g : Digraph) (root : Nat) : Dominators := g.dominatorsFrom g.sources root

namespace Dominators

/-- The immediate dominator of a vertex: none for the root and for vertices out of reach. -/
def immediate? (d : Dominators) (v : Nat) : Option Nat := d.idom[v]?.join

/-- The vertex can be reached from the root. -/
def reaches (d : Dominators) (v : Nat) : Bool := d.entered[v]?.join.isSome

/-- Every path from the root to `v` passes through `u`, and there is one. -/
def dominates (d : Dominators) (u v : Nat) : Bool :=
  match d.entered[u]?.join, d.entered[v]?.join, d.left[u]?.join, d.left[v]?.join with
  | some enteredU, some enteredV, some leftU, some leftV => enteredU ≤ enteredV && leftV ≤ leftU
  | _, _, _, _ => false

end Dominators

end FlowTree
