import FlowTree.Analysis
import FlowTree.Data.Basic

/-!
Snapshots: modules, their graphs and their trees as plain data, with blocks known by name. A snapshot
takes in whatever the analysis of a function came to.
-/

namespace FlowTree

/-- An edge between two named blocks. -/
structure EdgeSnapshot where
  source : String := ""
  target : String := ""
  deriving DecidableEq, Repr, Inhabited

/-- A block and its place in the dominator tree. -/
structure BlockSnapshot where
  name : String := ""
  line : Int := 0
  reachable : Bool := false
  /-- The immediate dominator, empty for a block that has none. -/
  dominator : String := ""
  successors : List String := []
  /-- The instructions in text; a snapshot that was read may lack the list. -/
  instructions? : Option (List String) := none
  deriving DecidableEq, Repr, Inhabited

/-- A tree, or the empty place of one among the children of a node that was read. -/
inductive NodeSnapshot where
  | absent
  | node (kind : String) (depth : Int) (block : String) (children : List NodeSnapshot)
  deriving Repr, Inhabited

/-- A function with its graph, its tree and what stands in the way of them. -/
structure FunctionSnapshot where
  name : String := ""
  blocks : List BlockSnapshot := []
  edges : List EdgeSnapshot := []
  tree : NodeSnapshot := .absent
  error : String := ""
  deriving Repr, Inhabited

/-- The functions of one source. The list of functions may be missing. -/
structure ModuleSnapshot where
  source : String := ""
  functions? : Option (List FunctionSnapshot) := none
  deriving Repr, Inhabited

/-! ### Taking snapshots -/

namespace FlowGraph

def blockSnapshot (g : FlowGraph) (id : BlockId) (b : Block) : BlockSnapshot where
  name := b.name
  line := b.position.line
  reachable := g.dominators.reaches id
  dominator := ((g.dominators.immediate? id).map g.blockName).getD ""
  successors := (g.successors id).map g.blockName
  instructions? := some (b.instructions.map g.function.render)

/-- The snapshots of the blocks, in program order. -/
def blockSnapshots (g : FlowGraph) : List BlockSnapshot :=
  g.blocks.toList.zipIdx.map fun (b, id) => g.blockSnapshot id b

/-- The snapshots of the edges, by number. -/
def edgeSnapshots (g : FlowGraph) : List EdgeSnapshot :=
  g.edges.toList.map fun e => ⟨g.blockName e.source, g.blockName e.target⟩

end FlowGraph

/-- The kind that a snapshot gives to a block in a tree. -/
def blockKind : String := "Block"

namespace Region

mutual

/-- The snapshot of a region in a node at the given depth. -/
def snapshot (name : BlockId → String) (depth : Nat) : Region → NodeSnapshot
  | .block b => .node blockKind (depth + 1) (name b) []
  | .node _ kind depth _ children => .node kind.name depth "" (snapshotAll name depth children)

/-- The snapshots of regions in a node at the given depth. -/
def snapshotAll (name : BlockId → String) (depth : Nat) : List Region → List NodeSnapshot
  | [] => []
  | r :: rs => snapshot name depth r :: snapshotAll name depth rs

end

end Region

namespace Outcome

def treeSnapshot (o : Outcome) : NodeSnapshot :=
  (o.tree?.map fun t => t.region.snapshot t.graph.blockName 0).getD .absent

end Outcome

/-- The snapshot of a function with its graph and its tree. -/
def Analysis.snapshot (a : Analysis) : FunctionSnapshot where
  name := a.function.name
  blocks := (a.outcome.graph?.map FlowGraph.blockSnapshots).getD []
  edges := (a.outcome.graph?.map FlowGraph.edgeSnapshots).getD []
  tree := a.outcome.treeSnapshot
  error := (a.outcome.failure?.map Failure.message).getD ""

/-- The snapshot of a function with its graph only. It still tells why there is no tree. -/
def Analysis.graphSnapshot (a : Analysis) : FunctionSnapshot := { a.snapshot with tree := .absent }

namespace ModuleSnapshot

/-- The snapshot of the functions of a source. -/
def ofAnalyses (source : String) (analyses : List Analysis) : ModuleSnapshot :=
  ⟨source, some (analyses.map Analysis.snapshot)⟩

/-- The snapshot of the graphs of a source. Without functions it has no list of them. -/
def ofGraphs (source : String) (analyses : List Analysis) : ModuleSnapshot :=
  ⟨source, if analyses.isEmpty then none else some (analyses.map Analysis.graphSnapshot)⟩

end ModuleSnapshot

/-! ### Snapshots as data -/

def EdgeSnapshot.toData (e : EdgeSnapshot) : Data :=
  .record [("from", .str e.source), ("to", .str e.target)]

def BlockSnapshot.toData (b : BlockSnapshot) : Data :=
  .record ([("name", .str b.name)] ++ Data.intField "line" b.line ++ [("reachable", .bool b.reachable)] ++
    Data.textField "idom" b.dominator ++ Data.listField "successors" (b.successors.map .str) ++
    [("instructions", .listOrNone (b.instructions?.map fun texts => texts.map .str))])

namespace NodeSnapshot

mutual

def toData : NodeSnapshot → Data
  | .absent => .null
  | .node kind depth block children =>
    .record ([("kind", .str kind), ("depth", .int depth)] ++ Data.textField "block" block ++
      Data.listField "children" (listData children))

/-- Trees as data. -/
def listData : List NodeSnapshot → List Data
  | [] => []
  | n :: ns => toData n :: listData ns

end

/-- The field of a tree, left out where there is none. -/
def field (name : String) : NodeSnapshot → List (String × Data)
  | .absent => []
  | n => [(name, n.toData)]

end NodeSnapshot

def FunctionSnapshot.toData (f : FunctionSnapshot) : Data :=
  .record ([("name", .str f.name)] ++ Data.listField "blocks" (f.blocks.map BlockSnapshot.toData) ++
    Data.listField "edges" (f.edges.map EdgeSnapshot.toData) ++ f.tree.field "tree" ++
    Data.textField "error" f.error)

def ModuleSnapshot.toData (m : ModuleSnapshot) : Data :=
  .record [("source", .str m.source),
    ("functions", .listOrNone (m.functions?.map fun fs => fs.map FunctionSnapshot.toData))]

end FlowTree
