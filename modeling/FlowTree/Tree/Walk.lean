import FlowTree.Tree.Basic

/-!
Walking a tree in pre-order. A region is a node with everything in it; walks over it hand each child to
a consumer, a node before its own children, until the consumer has seen enough.
-/

namespace FlowTree

/-- A block, or a node with all that is in it. -/
inductive Region where
  | block (id : BlockId)
  | node (id : NodeId) (kind : Kind) (depth : Nat) (firstBlock : BlockId) (children : List Region)
  deriving Repr, Inhabited

/-- The region of a child, to the given depth of nesting. -/
def Tree.regionOf (t : Tree) : (depth : Nat) → Child → Region
  | _, .block b => .block b
  | 0, .node id => .node id (.other 0) 0 0 []
  | depth + 1, .node id =>
    match t.node? id with
    | some n => .node id n.kind n.depth n.firstBlock (n.children.map (t.regionOf depth))
    | none => .node id (.other 0) 0 0 []

/-- The whole tree as a region. A node is nested in at most as many others as there are nodes. -/
def Tree.region (t : Tree) : Region := t.regionOf t.nodes.size (.node t.root)

namespace Region

def child : Region → Child
  | .block b => .block b
  | .node id .. => .node id

/-- The regions inside a region. -/
def children : Region → List Region
  | .block _ => []
  | .node _ _ _ _ children => children

mutual

/-- Hand a region and all that is in it to the consumer. -/
def walk {σ : Type} (yield : Child → σ → ForInStep σ) : Region → σ → ForInStep σ
  | .block b, s => yield (.block b) s
  | .node id _ _ _ children, s =>
    match yield (.node id) s with
    | .done s => .done s
    | .yield s => walkAll yield children s

/-- Hand regions and all that is in them to the consumer, in order. -/
def walkAll {σ : Type} (yield : Child → σ → ForInStep σ) : List Region → σ → ForInStep σ
  | [], s => .yield s
  | r :: rs, s =>
    match walk yield r s with
    | .done s => .done s
    | .yield s => walkAll yield rs s

end

end Region

namespace Tree

/-- Hand every child of the tree to the consumer, a node before its own children. -/
def walkChildren {σ : Type} (t : Tree) (yield : Child → σ → ForInStep σ) (s : σ) : ForInStep σ :=
  Region.walkAll yield t.region.children s

/-- Hand every node to the consumer, the root first. -/
def walkNodes {σ : Type} (t : Tree) (yield : NodeId → σ → ForInStep σ) (s : σ) : ForInStep σ :=
  match yield t.root s with
  | .done s => .done s
  | .yield s => t.walkChildren (fun
    | .node id, s => yield id s
    | .block _, s => .yield s) s

/-- Hand every block to the consumer, in the order in which the blocks are emitted. -/
def walkBlocks {σ : Type} (t : Tree) (yield : BlockId → σ → ForInStep σ) (s : σ) : ForInStep σ :=
  t.walkChildren (fun
    | .block b, s => yield b s
    | .node _, s => .yield s) s

/-- A consumer that keeps what it is handed, and stops once it has as many items as the limit says. -/
def keep {α : Type} (limit? : Option Nat) (a : α) (kept : List α) : ForInStep (List α) :=
  if limit?.any (· ≤ kept.length) then .done kept else .yield (kept ++ [a])

/-- What a consumer has when a walk ends, whether it stopped the walk or not. -/
def final {σ : Type} : ForInStep σ → σ
  | .done s => s
  | .yield s => s

/-- The children of the tree in pre-order, up to a limit if there is one. -/
def children (t : Tree) (limit? : Option Nat) : List Child := final (t.walkChildren (keep limit?) [])

/-- The nodes in pre-order, up to a limit if there is one. -/
def nodeList (t : Tree) (limit? : Option Nat) : List NodeId := final (t.walkNodes (keep limit?) [])

/-- The blocks in the order in which they are emitted, up to a limit if there is one. -/
def blockList (t : Tree) (limit? : Option Nat) : List BlockId := final (t.walkBlocks (keep limit?) [])

end Tree

end FlowTree
