import FlowTree.FlowGraph.Basic
import FlowTree.Tree.Exits

/-!
Structure trees. The nodes of a tree stand in a table and refer to each other by number; their leaves
are blocks of the control-flow graph. A table of shapes says which children each kind of node has.
-/

namespace FlowTree

/-- What a node of a structure tree is. -/
inductive Kind where
  | root
  | ifThen
  | ifPart
  | loop
  | loopBody
  | continuing
  | switch
  | case
  /-- A number that names no kind. -/
  | other (code : UInt8)
  deriving DecidableEq, Repr, Inhabited

namespace Kind

/-- The kinds in the order of their numbers, with their names. -/
def table : List (Kind × String) := [
  (.root, "Root"), (.ifThen, "If"), (.ifPart, "IfPart"), (.loop, "Loop"), (.loopBody, "LoopBody"),
  (.continuing, "Continue"), (.switch, "Switch"), (.case, "Case")]

/-- The kind with the given number. -/
def ofCode (code : UInt8) : Kind := (table[code.toNat]?.map (·.1)).getD (.other code)

/-- The number of a kind. -/
def code (k : Kind) : UInt8 :=
  match k with
  | .other code => code
  | k => UInt8.ofNat (table.findIdx (·.1 = k))

def name (k : Kind) : String := (table.lookup k).getD ("Kind(" ++ toString k.code.toNat ++ ")")

def ofName? (name : String) : Option Kind := (table.find? (·.2 = name)).map (·.1)

end Kind

/-- The number of a node in its tree. -/
abbrev NodeId := Nat

/-- A child of a node: a nested node or a block. Blocks go by the numbers that they have in their graph,
or by other names: what shape a node has does not hang on them. -/
inductive Child (β : Type := BlockId) where
  | node (id : NodeId)
  | block (id : β)
  deriving DecidableEq, Repr, Inhabited

namespace Child

variable {β : Type}

/-- The nested node. -/
def node? : Child β → Option NodeId
  | .node id => some id
  | .block _ => none

def block? : Child β → Option β
  | .block id => some id
  | .node _ => none

def text [ToString β] : Child β → String
  | .node id => "node#" ++ toString id
  | .block id => "block#" ++ toString id

end Child

/-- The exits of a stretch of blocks. -/
abbrev BlockExits := Exits BlockId EdgeId

/-- A structured construct. -/
structure Node where
  kind : Kind
  children : List Child
  /-- The root is at depth zero, a nested node one below the node it is in. -/
  depth : Nat
  firstBlock : BlockId
  /-- The node that this one is in, with its index among the children there. -/
  parent? : Option (NodeId × Nat) := none
  /-- The loose ends that the node leaves to what it is in. -/
  exits : BlockExits := {}
  deriving DecidableEq, Repr, Inhabited

/-- The block that an If, a Loop or a Switch starts with. -/
def Node.header? (n : Node) : Option BlockId :=
  match n.kind with
  | .ifThen | .loop | .switch => n.children.head?.bind Child.block?
  | _ => none

/-- The place of a block in a tree: the node it is in and its index among the children there. A place that
a caller has noted for a block need not be in any tree, so its numbers may be below zero. -/
structure Place where
  node : Int
  index : Int
  deriving DecidableEq, Repr, Inhabited

/-! ### Shapes -/

def Child.isOfKind {β : Type} (kindOf : NodeId → Option Kind) (k : Kind) : Child β → Bool
  | .node id => kindOf id = some k
  | .block _ => false

def Child.isBlock {β : Type} (c : Child β) : Bool := c.block?.isSome

/-- The children without a first one of the given kind. -/
def dropOfKind {β : Type} (kindOf : NodeId → Option Kind) (k : Kind) : List (Child β) → List (Child β)
  | [] => []
  | c :: cs => if c.isOfKind kindOf k then cs else c :: cs

/-- What is wrong with the children of a node of the given kind, if anything. -/
def shapeFault? {β : Type} (kind : Kind) (children : List (Child β)) (kindOf : NodeId → Option Kind) :
    Option String :=
  match kind with
  | .root | .ifPart | .loopBody | .continuing | .case =>
    if children.isEmpty then some "expected at least one child" else none
  | .ifThen =>
    if !children.head?.any Child.isBlock then some "first child must be a block"
    else if 3 < children.length then some "more than two IfPart children"
    else if children.tail.all (·.isOfKind kindOf .ifPart) then none
    else some "trailing children must be IfPart"
  | .loop =>
    if !children.head?.any Child.isBlock then some "first child must be the header block"
    else if (dropOfKind kindOf .continuing (dropOfKind kindOf .loopBody children.tail)).isEmpty then none
    else some "expected optional LoopBody then optional Continue after the header"
  | .switch =>
    if !children.head?.any Child.isBlock then some "first child must be a block"
    else if children.tail.all (·.isOfKind kindOf .case) then none
    else some "trailing children must be Case"
  | .other _ => some "unknown kind"

/-! ### Trees -/

/-- The structured form of a function. -/
structure Tree where
  graph : FlowGraph
  nodes : Array Node
  root : NodeId
  /-- The place of each block that the tree holds. -/
  places : Array (Option Place)

namespace Tree

/-- The node with the given number. -/
def node? (t : Tree) (id : NodeId) : Option Node := t.nodes[id]?

/-- The node that a node is in, and its index there. -/
def parent? (t : Tree) (id : NodeId) : Option (NodeId × Nat) := (t.node? id).bind (·.parent?)

def place? (t : Tree) (b : BlockId) : Option Place := t.places[b]?.join

/-- The nested nodes of a node that satisfy a test. -/
def partsWhere (t : Tree) (n : Node) (p : Node → Bool) : List NodeId :=
  (n.children.filterMap Child.node?).filter fun id => (t.node? id).any p

/-- The arms of an If for its true and its false target. An arm without blocks is missing; when both
targets are one block, the only arm is the true one. -/
def ifArms (t : Tree) (id : NodeId) : Option NodeId × Option NodeId :=
  match t.node? id with
  | some n =>
    if n.kind = .ifThen then
      let labels := (n.header?.bind t.graph.block?).bind (·.terminator?) |>.bind (·.conditionalTargets?)
      let whenTrue := labels.bind (t.graph.blockOf? ·.1)
      let whenFalse := labels.bind (t.graph.blockOf? ·.2)
      ((t.partsWhere n fun part => some part.firstBlock = whenTrue).getLast?,
       (t.partsWhere n fun part =>
          some part.firstBlock ≠ whenTrue && some part.firstBlock = whenFalse).getLast?)
    else (none, none)
  | none => (none, none)

/-- The body and the continue part of a Loop. -/
def loopParts (t : Tree) (id : NodeId) : Option NodeId × Option NodeId :=
  match t.node? id with
  | some n =>
    if n.kind = .loop then
      ((t.partsWhere n (·.kind = .loopBody)).getLast?, (t.partsWhere n (·.kind = .continuing)).getLast?)
    else (none, none)
  | none => (none, none)

end Tree

end FlowTree
