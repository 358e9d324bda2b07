import FlowTree.Digraph.Dominators
import FlowTree.Function.Basic

/-!
Control-flow graphs: the basic blocks of a function, one edge for each distinct successor of a block,
and the dominator tree from the entry block.
-/

namespace FlowTree

/-- The number of a block in program order. Block zero is the entry. -/
abbrev BlockId := Nat

/-- The number of an edge. -/
abbrev EdgeId := Nat

/-- A straight run of instructions that ends in its only terminator. The label that opens it is not
among the instructions. -/
structure Block where
  label : Id
  name : String
  /-- Where the label stands. -/
  position : Position
  instructions : List Instruction
  deriving DecidableEq, Repr, Inhabited

namespace Block

/-- The last instruction. -/
def terminator? (b : Block) : Option Instruction := b.instructions.getLast?

/-- The merge instruction right before the terminator. -/
def merge? (b : Block) : Option Instruction :=
  match b.instructions.reverse with
  | _ :: i :: _ => if i.op.isMerge then some i else none
  | _ => none

/-- The block's label as it is written in the source. -/
def text (b : Block) : String := "%" ++ b.name

/-- The block leaves the function for good. -/
def isLeaving (b : Block) : Bool := b.terminator?.any (·.op.isReturnOrKill)

end Block

/-- A transfer of control between two blocks. An edge carries its own number. -/
structure Edge where
  id : EdgeId
  source : BlockId
  target : BlockId
  deriving DecidableEq, Repr, Inhabited

/-- The blocks of a function and the edges between them. -/
structure FlowGraph where
  function : Function
  blocks : Array Block
  edges : Array Edge
  /-- The outgoing edges of each block, in the order of its terminator's operands. -/
  outgoing : Array (List EdgeId)
  /-- The incoming edges of each block. -/
  incoming : Array (List EdgeId)
  dominators : Dominators

namespace FlowGraph

def entry (_ : FlowGraph) : BlockId := 0

/-- The number of blocks, in reach or not. -/
def size (g : FlowGraph) : Nat := g.blocks.size

/-- The block with the given number. -/
def block? (g : FlowGraph) (b : BlockId) : Option Block := g.blocks[b]?

def blockName (g : FlowGraph) (b : BlockId) : String := ((g.block? b).map (·.name)).getD ""

/-- The outgoing edges of a block, in the order of its terminator's operands. -/
def outgoingEdges (g : FlowGraph) (b : BlockId) : List EdgeId := g.outgoing[b]?.getD []

def incomingEdges (g : FlowGraph) (b : BlockId) : List EdgeId := g.incoming[b]?.getD []

/-- The block an edge leads to. -/
def target? (g : FlowGraph) (e : EdgeId) : Option BlockId := g.edges[e]?.map (·.target)

/-- The distinct successors of a block. -/
def successors (g : FlowGraph) (b : BlockId) : List BlockId := (g.outgoingEdges b).filterMap g.target?

/-- The distinct predecessors of a block. -/
def predecessors (g : FlowGraph) (b : BlockId) : List BlockId :=
  (g.incomingEdges b).filterMap fun e => g.edges[e]?.map (·.source)

/-- The edge from one block to another. -/
def edgeBetween? (g : FlowGraph) (a b : BlockId) : Option EdgeId :=
  (g.outgoingEdges a).find? fun e => g.target? e = some b

def blockOf? (g : FlowGraph) (label : Id) : Option BlockId := g.blocks.findIdx? (·.label = label)

/-- The blocks that no path from the entry reaches, in program order. -/
def unreachable (g : FlowGraph) : List BlockId :=
  (List.range g.size).filter fun b => !g.dominators.reaches b

end FlowGraph

end FlowTree
