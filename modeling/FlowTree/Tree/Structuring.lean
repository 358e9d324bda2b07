import FlowTree.Tree.CaseOrder
import FlowTree.Tree.Placement

/-!
Structuring a control-flow graph. Guided by the merge instructions of its blocks, the graph is read as
nested constructs: a span is a sequence of blocks and constructs that control runs through until all
its loose ends lead to exits of the constructs around it. Each block in reach is visited once and is
placed in the node that it becomes a child of.

Constructs are defined on top of a function that structures the spans nested in them, so a construct
can be understood on its own; `span` ties the knot.
-/

namespace FlowTree

/-- Structuring stopped early. -/
inductive Halt where
  | rejected (r : Rejection)
  | fault (f : Fault)
  deriving DecidableEq, Repr

/-- A tree in the making: its nodes, the blocks not yet visited and the places of blocks. -/
structure Draft where
  nodes : Array Node := #[]
  unvisited : List BlockId
  placement : Placement
  deriving Repr

/-- A step of structuring. When it stops, what was done so far stays known. -/
abbrev Structuring := EStateM Halt Draft

/-- The children of a span and its loose ends. -/
abbrev SpanResult := List Child × BlockExits

/-- A way to structure the span from a block, given the exits of what is around it and its depth. -/
abbrev SpanOf := BlockId → List BlockId → Nat → Structuring SpanResult

namespace Structuring

/-- Stop because of a fault. -/
def fail {α : Type} (f : Fault) : Structuring α := throw (.fault f)

/-- The item with the given number in a table. -/
def item {α : Type} (table : Array α) (i : Nat) : Structuring α :=
  match table[i]? with
  | some a => pure a
  | none => fail (.outOfRange i table.size)

def terminatorOf (g : FlowGraph) (b : BlockId) : Structuring Instruction := do
  let block ← item g.blocks b
  match block.terminator? with
  | some terminator => pure terminator
  | none => fail (.outOfRange 0 block.instructions.length)

/-- Stop because the control flow is not structured at a block. -/
def reject {α : Type} (g : FlowGraph) (kind : RejectionKind) (b : BlockId) (detail : String)
    (targets : List BlockId) : Structuring α := do
  -- A rejection names the terminator and the targets, so these have to be there.
  let _ ← terminatorOf g b
  targets.forM fun t => do
    let _ ← item g.blocks t
  throw (.rejected (.atBlock g kind b detail targets))

/-! ### Nodes -/

/-- Record the node that a node is in. -/
def setParent (child : NodeId) (parent : NodeId) (index : Nat) : Structuring Unit := do
  let d ← get
  let n ← item d.nodes child
  match n.parent? with
  | some (old, _) => fail (.secondParent child old)
  | none => set { d with nodes := d.nodes.setIfInBounds child { n with parent? := some (parent, index) } }

/-- Record the place of a block. -/
def placeBlock (g : FlowGraph) (b : BlockId) (place : Place) : Structuring Unit := do
  let d ← get
  let _ ← item g.blocks b
  match d.placement.put g b place with
  | .error f => fail f
  | .ok placement => set { d with placement }

def firstBlock : Child → Structuring BlockId
  | .block b => pure b
  | .node id => do
    let d ← get
    let n ← item d.nodes id
    pure n.firstBlock

/-- Tie a child to the node that it is in. -/
def tieChild (g : FlowGraph) (node : NodeId) : Child × Nat → Structuring Unit
  | (.node id, index) => setParent id node index
  | (.block b, index) => placeBlock g b ⟨node, index⟩

def addNode (g : FlowGraph) (kind : Kind) (children : List Child) (depth : Nat) (exits : BlockExits) :
    Structuring NodeId := do
  let d ← get
  match shapeFault? kind children fun id => (d.nodes[id]?).map (·.kind) with
  | some why => fail (.misshapen kind why)
  | none =>
    let child ← item children.toArray 0
    let first ← firstBlock child
    set { d with nodes := d.nodes.push { kind, children, depth, firstBlock := first, exits } }
    children.zipIdx.forM (tieChild g d.nodes.size)
    pure d.nodes.size

/-- Add a node for a span, unless the span is empty. -/
def addPart (g : FlowGraph) (kind : Kind) (children : List Child) (depth : Nat) (exits : BlockExits) :
    Structuring (List Child) := do
  if children.isEmpty then pure []
  else do
    let id ← addNode g kind children depth exits
    pure [.node id]

/-! ### Constructs -/

def blockOf (g : FlowGraph) (label : Id) : Structuring BlockId :=
  match g.blockOf? label with
  | some b => pure b
  | none => fail (.noBlock label)

/-- Visit a block for the first and only time. -/
def visit (g : FlowGraph) (b : BlockId) : Structuring Unit := do
  let _ ← item g.blocks b
  let d ← get
  if b ∈ d.unvisited then set { d with unvisited := d.unvisited.erase b }
  else reject g .unstructured b "block is reached from outside the construct that contains it" []

/-- The block that an edge leads to. -/
def targetOf (g : FlowGraph) (e : EdgeId) : Structuring BlockId := do
  let edge ← item g.edges e
  pure edge.target

/-- The loose ends of a block: the function's end, or its outgoing edges. -/
def blockExits (g : FlowGraph) (b : BlockId) : Structuring BlockExits := do
  let terminator ← terminatorOf g b
  if terminator.op.isReturnOrKill then pure { returnOrKill := [b] }
  else do
    let edges ← item g.outgoing b
    edges.foldlM (fun x e => do
      let target ← targetOf g e
      pure (x.add target e)) {}

/-- Structure the span from a block that is entered by the given edges. It is empty when the block is an
exit of what is around it: then the edges themselves are the loose ends. -/
def enter (nested : SpanOf) (start : BlockId) (sources : List EdgeId) (exits : List BlockId)
    (depth : Nat) : Structuring SpanResult :=
  if start ∈ exits then pure ([], Exits.addAll {} start sources)
  else nested start exits depth

/-- Structure the spans that a loop's header leads to. -/
def loopSpans (g : FlowGraph) (nested : SpanOf) (header : BlockId) (exits : List BlockId) (depth : Nat) :
    Structuring SpanResult := do
  let edges ← item g.outgoing header
  edges.foldlM (fun (body, loose) e => do
    let target ← targetOf g e
    let (children, ends) ← enter nested target [e] exits depth
    pure (body ++ children, loose.merge ends)) ([], {})

/-- Structure a loop: its header, its body, and the part from its continue target back to the header. -/
def loop (g : FlowGraph) (nested : SpanOf) (header : BlockId) (merge : Instruction)
    (exits : List BlockId) (depth : Nat) : Structuring (Child × BlockExits) := do
  match merge.loopMerge? with
  | none => fail (.noBlock 0)
  | some (mergeLabel, continueLabel) =>
    let mergeBlock ← blockOf g mergeLabel
    let continueTarget ← blockOf g continueLabel
    let loopExits := mergeBlock :: exits
    -- The body ends where the continue part starts and where the loop is left.
    let (body, loose) ← loopSpans g nested header (continueTarget :: loopExits) (depth + 2)
    let bodyPart ← addPart g .loopBody body (depth + 1) {}
    let continueExits := header :: loopExits
    let (continuePart, loose) ←
      if loose.has continueTarget && continueTarget ∉ continueExits then do
        let sources := loose.edges continueTarget
        let (span, ends) ← enter nested continueTarget sources continueExits (depth + 2)
        let part ← addPart g .continuing span (depth + 1) {}
        pure (part, (loose.remove continueTarget).merge ends)
      else pure ([], loose)
    -- What leads back to the header does not leave the loop.
    let loose := loose.remove header
    let id ← addNode g .loop (.block header :: (bodyPart ++ continuePart)) depth loose
    pure (.node id, loose)

/-- Structure a conditional branch: its header and an arm for each of its distinct targets. -/
def ifThen (g : FlowGraph) (nested : SpanOf) (header : BlockId) (terminator : Instruction)
    (exits : List BlockId) (depth : Nat) : Structuring (Child × BlockExits) := do
  match terminator.conditionalTargets? with
  | none => fail (.noBlock 0)
  | some (whenTrue, whenFalse) =>
    let labels := if whenFalse = whenTrue then [whenTrue] else [whenTrue, whenFalse]
    let sides ← labels.mapM (blockOf g)
    let (arms, loose) ← sides.foldlM (fun (arms, loose) side => do
      let (span, ends) ← enter nested side (g.edgeBetween? header side).toList exits (depth + 2)
      let arm ← addPart g .ifPart span (depth + 1) ends
      pure (arms ++ arm, loose.merge ends)) ([], ({} : BlockExits))
    let id ← addNode g .ifThen (.block header :: arms) depth loose
    pure (.node id, loose)

/-- Structure one switch case. Its own target is an exit too, so that a case which branches back to
itself shows up as a circle. -/
def switchArm (g : FlowGraph) (nested : SpanOf) (targets exits : List BlockId) (depth : Nat)
    (target : BlockId) : Structuring SwitchArm := do
  let (children, ends) ← nested target (targets ++ exits) depth
  match ends.targetList.filter (· ∈ targets) with
  | [] => pure ⟨target, children, ends, none⟩
  | [next] => pure ⟨target, children, ends.remove next, some next⟩
  | reached => reject g .multipleCases target "" reached

/-- The distinct targets of a switch in operand order, the default one last. -/
def switchTargets (cases : List BlockId) (default : BlockId) : List BlockId :=
  (cases.filter (· ≠ default)).eraseDups ++ [default]

/-- Put switch cases in order, each directly before the one it falls into. -/
def orderCases (g : FlowGraph) (arms : List SwitchArm) : Structuring (List SwitchArm) :=
  match SwitchArm.order arms with
  | .error (.shared case first second) =>
    reject g .unstructured case "more than one case falls through into this case" [first, second]
  | .error (.circle case) => reject g .caseLoop case "" []
  | .ok ordered => pure ordered

/-- Structure a switch: its header and its cases in order. -/
def switch (g : FlowGraph) (nested : SpanOf) (header : BlockId) (terminator : Instruction)
    (exits : List BlockId) (depth : Nat) : Structuring (Child × BlockExits) := do
  match terminator.switchCases? with
  | none => fail (.noBlock 0)
  | some (defaultLabel, cases) =>
    let default ← blockOf g defaultLabel
    let caseBlocks ← cases.mapM (blockOf g ·.target)
    let targets := switchTargets caseBlocks default
    -- A target that is an exit already gets no case: there the header's own edge leaves the switch.
    let direct := (targets.filter (· ∈ exits)).foldl
      (fun x t => x.addAll t (g.edgeBetween? header t).toList) ({} : BlockExits)
    let caseTargets := targets.filter (· ∉ exits)
    let arms ← caseTargets.mapM (switchArm g nested caseTargets exits (depth + 2))
    let loose := arms.foldl (fun x arm => x.merge arm.exits) direct
    let ordered ← orderCases g arms
    let nodes ← ordered.mapM fun arm => addNode g .case arm.children (depth + 1) arm.exits
    let id ← addNode g .switch (.block header :: nodes.map .node) depth loose
    pure (.node id, loose)

/-- Structure a selection by its terminator. -/
def selection (g : FlowGraph) (nested : SpanOf) (header : BlockId) (merge : Instruction)
    (exits : List BlockId) (depth : Nat) : Structuring (Child × BlockExits) := do
  match merge.selectionMerge? with
  | none => fail (.noBlock 0)
  | some mergeLabel =>
    let mergeBlock ← blockOf g mergeLabel
    let terminator ← terminatorOf g header
    match terminator.op with
    | .branchConditional => ifThen g nested header terminator (mergeBlock :: exits) depth
    | .switch => switch g nested header terminator (mergeBlock :: exits) depth
    | _ => reject g .invalidTermination header "" []

/-- Structure one block and, when it is a header, the construct that it opens. -/
def construct (g : FlowGraph) (nested : SpanOf) (b : BlockId) (exits : List BlockId) (depth : Nat) :
    Structuring (Child × BlockExits) := do
  visit g b
  let block ← item g.blocks b
  match block.merge? with
  | none =>
    let loose ← blockExits g b
    pure (.block b, loose)
  | some merge =>
    if merge.op = .loopMerge then loop g nested b merge exits depth
    else selection g nested b merge exits depth

/-- The loose ends that lead to exits of what is around. -/
def kept (exits : List BlockId) (loose : BlockExits) : BlockExits :=
  { loose with targets := loose.targets.filter fun (target, _) => target ∈ exits }

/-- The targets at which the span itself goes on. -/
def onward (exits : List BlockId) (loose : BlockExits) : List BlockId :=
  loose.targetList.filter (· ∉ exits)

/-- Structure the span from a block: one construct after the other while there is one block to go on
at. The budget bounds the blocks that are visited on the way; with one more than the unvisited blocks
it does not run out. -/
def span (g : FlowGraph) : (budget : Nat) → SpanOf
  | 0, _, _, _ => fail .outOfBlocks
  | budget + 1, start, exits, depth => do
    let (child, loose) ← construct g (span g budget) start exits depth
    match onward exits loose with
    | [] => pure ([child], kept exits loose)
    | [next] =>
      let (children, ends) ← span g budget next exits depth
      pure (child :: children, (kept exits loose).merge ends)
    | first :: second :: _ =>
      reject g .unstructured start "more than one successor continues the enclosing construct" [first, second]

/-- Structure the whole graph under a root. -/
def root (g : FlowGraph) : Structuring NodeId := do
  let (children, loose) ← span g (g.size + 1) g.entry [] 1
  if loose.isEmpty then addNode g .root children 0 loose
  else fail (.undrained loose.targets.length)

end Structuring

/-- Take back the places of all blocks that nodes hold. -/
def Draft.discard (d : Draft) : Placement :=
  d.nodes.toList.foldl (fun p n => (n.children.filterMap Child.block?).foldl Placement.clear p) d.placement

/-- Structure a graph some of whose blocks may have places already. The places afterwards are those of
the tree when there is one, and those from before when the control flow is rejected. -/
def Tree.build (g : FlowGraph) (placement : Placement) : Except Halt Tree × Placement :=
  match Structuring.root g { unvisited := List.range g.size, placement } with
  | .ok root d => (.ok ⟨g, d.nodes, root, d.placement⟩, d.placement)
  | .error (.rejected r) d => (.error (.rejected r), d.discard)
  | .error (.fault f) d => (.error (.fault f), d.placement)

end FlowTree
