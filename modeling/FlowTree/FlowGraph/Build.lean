import FlowTree.Diagnostic.Basic
import FlowTree.FlowGraph.Basic

/-!
Building the control-flow graph of a function: the instructions are cut into blocks at labels and
terminators, and every label that a terminator or a merge instruction names has to be that of a block.
-/

namespace FlowTree

namespace FlowGraph

/-- The blocks cut so far, and the block that is still open. -/
structure Cut where
  blocks : List Block := []
  open? : Option Block := none
  deriving DecidableEq, Repr

/-- Take one more instruction. Outside a block only line markers and labels may stand; inside, a label
may not, and a terminator closes the block. -/
def Cut.step (f : Function) (c : Cut) (i : Instruction) : Except Diagnostic Cut :=
  match c.open? with
  | none =>
    -- A line marker between blocks belongs to none and is dropped.
    if i.op.isDebugLine then .ok c
    else if i.op ≠ .label then .error (.expectedLabel i.name i.position)
    else if c.blocks.any (·.label = i.result) then .error (.duplicateLabel (f.nameOf i.result) i.position)
    else .ok { c with open? := some ⟨i.result, f.nameOf i.result, i.position, []⟩ }
  | some b =>
    if i.op = .label then .error (.unterminatedBlock b.name b.position)
    else
      let b := { b with instructions := b.instructions ++ [i] }
      if i.op.isTerminator then .ok ⟨c.blocks ++ [b], none⟩ else .ok { c with open? := some b }

/-- The blocks of a function, in program order. -/
def cutBlocks (f : Function) : Except Diagnostic (List Block) := do
  let c ← f.instructions.foldlM (Cut.step f) {}
  match c.open? with
  | some b => .error (.unterminatedBlock b.name b.position)
  | none => if c.blocks.isEmpty then .error (.emptyFunction f.name) else .ok c.blocks

/-- The number of the block with the given label, for an instruction at the given position. -/
def resolve (f : Function) (blocks : List Block) (label : Id) (position : Position) :
    Except Diagnostic BlockId :=
  match blocks.findIdx? (·.label = label) with
  | some b => .ok b
  | none =>
    let names := (blocks.map (·.name)).mergeSort fun a b => decide (a ≤ b)
    .error (.undefinedLabel (f.nameOf label) position names)

def mergeLabels? (i : Instruction) : Option (List Id) :=
  match i.op with
  | .loopMerge => i.loopMerge?.map fun (merge, continueLabel) => [merge, continueLabel]
  | .selectionMerge => i.selectionMerge?.map ([·])
  | _ => some []

/-- Every label of a block's merge instruction is that of a block. -/
def checkMerge (f : Function) (blocks : List Block) (b : Block) : Except Diagnostic Unit :=
  match b.merge? with
  | none => .ok ()
  | some merge =>
    match mergeLabels? merge with
    | none => .error (.missingBranchTargets merge.name merge.position)
    | some labels => labels.forM fun label => do
      let _ ← resolve f blocks label merge.position
      .ok ()

/-- Building stopped early. -/
inductive BuildHalt where
  | rejected (d : Diagnostic)
  /-- An index that is not one of the list that it is used on. -/
  | outOfRange (index : Int) (size : Nat)
  deriving DecidableEq, Repr

/-- What a halt reports: a fault has no code and no place. -/
def BuildHalt.diagnostic : BuildHalt → Diagnostic
  | .rejected d => d
  | .outOfRange index size =>
    { code := "", message := "cfg: index out of range [" ++ toString index ++ "] with length " ++ toString size }

instance : Coe BuildHalt Diagnostic where coe := BuildHalt.diagnostic

/-- The edges so far, and for each block the numbers of those that leave it and of those that come in. -/
structure EdgeTables where
  edges : Array Edge
  outgoing : Array (List EdgeId)
  incoming : Array (List EdgeId)
  deriving DecidableEq, Repr

namespace EdgeTables

/-- The tables of blocks without edges. -/
def empty (size : Nat) : EdgeTables := ⟨#[], Array.replicate size [], Array.replicate size []⟩

/-- Append the number of an edge to the row of a block. -/
def addToRow (rows : Array (List EdgeId)) (b : BlockId) (e : EdgeId) : Except BuildHalt (Array (List EdgeId)) :=
  if b < rows.size then .ok (rows.modify b (· ++ [e])) else .error (.outOfRange b rows.size)

/-- Add an edge under the next number. -/
def addEdge (t : EdgeTables) (source target : BlockId) : Except BuildHalt EdgeTables := do
  let id := t.edges.size
  let outgoing ← addToRow t.outgoing source id
  let incoming ← addToRow t.incoming target id
  .ok ⟨t.edges.push ⟨id, source, target⟩, outgoing, incoming⟩

end EdgeTables

/-- Add an edge to the block with the given label, unless it is among the targets so far. -/
def addTarget (f : Function) (blocks : List Block) (source : BlockId) (position : Position)
    (state : EdgeTables × List BlockId) (label : Id) : Except BuildHalt (EdgeTables × List BlockId) := do
  let (tables, targets) := state
  let target ← (resolve f blocks label position).mapError .rejected
  if target ∈ targets then .ok (tables, targets)
  else do
    let tables ← tables.addEdge source target
    .ok (tables, targets ++ [target])

/-- Add the edges of a block, which lead to the blocks that its terminator names. -/
def addBlock (f : Function) (blocks : List Block) (state : EdgeTables × Array (List BlockId)) (next : Block × BlockId) :
    Except BuildHalt (EdgeTables × Array (List BlockId)) := do
  let (tables, links) := state
  let (b, source) := next
  (checkMerge f blocks b).mapError .rejected
  match b.terminator? with
  | none => .error (.outOfRange (-1) b.instructions.length)
  | some terminator =>
    match terminator.branchTargets? with
    | none => .error (.rejected (.missingBranchTargets terminator.name terminator.position))
    | some labels => do
      let (tables, targets) ← labels.foldlM (addTarget f blocks source terminator.position) (tables, [])
      .ok (tables, links.push targets)

/-- The edges of all blocks, and the successors of each. -/
def link (f : Function) (blocks : List Block) : Except BuildHalt (EdgeTables × Array (List BlockId)) :=
  blocks.zipIdx.foldlM (addBlock f blocks) (.empty blocks.length, #[])

/-- The graph with the given blocks, edges and successors. -/
def ofTables (f : Function) (blocks : List Block) (tables : EdgeTables) (links : Array (List BlockId)) : FlowGraph where
  function := f
  blocks := blocks.toArray
  edges := tables.edges
  outgoing := tables.outgoing
  incoming := tables.incoming
  dominators := Digraph.dominators ⟨links⟩ 0

/-- The control-flow graph of a function. -/
def build (f : Function) : Except BuildHalt FlowGraph :=
  if f.instructions.isEmpty then .error (.rejected (.emptyFunction f.name))
  else do
    let blocks ← (cutBlocks f).mapError .rejected
    let (tables, links) ← link f blocks
    .ok (ofTables f blocks tables links)

end FlowGraph

end FlowTree
