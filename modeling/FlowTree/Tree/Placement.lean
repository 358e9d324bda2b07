import FlowTree.Tree.Rejection

/-!
Places of blocks. A block is placed at most once: a second place is a fault until the first one is
taken back.
-/

namespace FlowTree

/-- The place of each block of a graph that has one. -/
abbrev Placement := Array (Option Place)

namespace Placement

/-- No block of the graph has a place. -/
def none (g : FlowGraph) : Placement := Array.replicate g.size Option.none

def place? (p : Placement) (b : BlockId) : Option Place := p[b]?.join

/-- Give a block a place. -/
def put (p : Placement) (g : FlowGraph) (b : BlockId) (place : Place) : Except Fault Placement :=
  match p.place? b with
  | some old => .error (.alreadyPlaced (g.blockName b) old)
  | Option.none => .ok (p.setIfInBounds b (some place))

/-- Take the place of a block back. -/
def clear (p : Placement) (b : BlockId) : Placement := p.setIfInBounds b Option.none

end Placement

end FlowTree
