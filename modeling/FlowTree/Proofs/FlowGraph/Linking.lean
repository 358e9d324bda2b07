import FlowTree.Proofs.FlowGraph.Tables
import FlowTree.Proofs.Sequences

/-!
Linking in two stages. Edges are added while the labels of the terminators are looked up, which comes to the same as
finding the successors of all blocks first (`linkBlocks`) and filling the tables afterwards (`ofLinks`): an edge leads from
a block to a block, so there is a row for it on both sides, and adding it never stops.
-/

namespace FlowTree
namespace FlowGraph

/-- The distinct successors that a terminator names, in the order of its operands. -/
def targetsOf (f : Function) (blocks : List Block) (terminator : Instruction) : Except Diagnostic (List BlockId) :=
  match terminator.branchTargets? with
  | none => .error (.missingBranchTargets terminator.name terminator.position)
  | some labels => do
    let targets ← labels.mapM fun label => resolve f blocks label terminator.position
    .ok targets.eraseDups

/-- The successors of a block. -/
def linkBlock (f : Function) (blocks : List Block) (b : Block) : Except BuildHalt (List BlockId) := do
  (checkMerge f blocks b).mapError .rejected
  match b.terminator? with
  | none => .error (.outOfRange (-1) b.instructions.length)
  | some terminator => (targetsOf f blocks terminator).mapError .rejected

/-- The successors of each block. -/
def linkBlocks (f : Function) (blocks : List Block) : Except BuildHalt (List (List BlockId)) :=
  blocks.mapM (linkBlock f blocks)

/-- The graph with the given blocks and successors. -/
def ofLinks (f : Function) (blocks : List Block) (links : List (List BlockId)) : FlowGraph :=
  ofTables f blocks (.ofEnds blocks.length (endsOf links)) links.toArray

section
variable {f : Function} {blocks : List Block} {links : List (List BlockId)}

@[simp] theorem blocks_ofLinks : (ofLinks f blocks links).blocks = blocks.toArray := rfl

theorem size_ofLinks : (ofLinks f blocks links).size = blocks.length := by
  simp [size]

theorem edges_ofLinks : (ofLinks f blocks links).edges = (edgesOf links).toArray := rfl

theorem outgoing_ofLinks : (ofLinks f blocks links).outgoing =
    (Array.range blocks.length).map fun b => edgesWhere (edgesOf links) (·.source = b) := rfl

theorem incoming_ofLinks : (ofLinks f blocks links).incoming =
    (Array.range blocks.length).map fun b => edgesWhere (edgesOf links) (·.target = b) := rfl

end

/-! ### Adding edges -/

theorem resolve_eq_ok {f : Function} {blocks : List Block} {label : Id} {position : Position} {b : BlockId} :
    resolve f blocks label position = .ok b ↔ blocks.findIdx? (·.label = label) = some b := by
  unfold resolve
  cases blocks.findIdx? (·.label = label) <;> simp

theorem lt_of_resolve {f : Function} {blocks : List Block} {label : Id} {position : Position} {b : BlockId}
    (h : resolve f blocks label position = .ok b) : b < blocks.length :=
  (List.findIdx?_eq_some_iff_getElem.mp (resolve_eq_ok.mp h)).1

section
variable {f : Function} {blocks : List Block}

/-- The tables with one more block when its labels so far have led to the given blocks. -/
def tablesAfter (blocks : List Block) (links : List (List BlockId)) (resolved : List BlockId) :
    EdgeTables × List BlockId :=
  (.ofEnds blocks.length (endsOf (links ++ [resolved.eraseDups])), resolved.eraseDups)

theorem addTarget_tablesAfter {links : List (List BlockId)} (hlinks : links.length < blocks.length) (position : Position)
    (resolved : List BlockId) (label : Id) :
    addTarget f blocks links.length position (tablesAfter blocks links resolved) label =
      ((resolve f blocks label position).mapError .rejected).map fun target =>
        tablesAfter blocks links (resolved ++ [target]) := by
  unfold addTarget tablesAfter
  cases htarget : resolve f blocks label position with
  | error d => rfl
  | ok target =>
    by_cases hmem : target ∈ resolved
    · simp [Except.mapError, Except.map, bind, Except.bind, eraseDups_concat, hmem]
    · simp [Except.mapError, Except.map, bind, Except.bind, eraseDups_concat, hmem, endsOf_concat,
        EdgeTables.ofEnds_addEdge hlinks (lt_of_resolve htarget)]

theorem foldlM_addTarget {links : List (List BlockId)} (hlinks : links.length < blocks.length) (position : Position)
    (labels : List Id) : labels.foldlM (addTarget f blocks links.length position)
      (.ofEnds blocks.length (endsOf links), []) =
        ((labels.mapM fun label => resolve f blocks label position).mapError .rejected).map (tablesAfter blocks links) := by
  have hstart : (EdgeTables.ofEnds blocks.length (endsOf links), []) = tablesAfter blocks links [] := by
    simp [tablesAfter, endsOf_concat]
  rw [hstart, ← mapM_mapError]
  exact foldlM_eq_map_mapM (tablesAfter blocks links) fun resolved label _ =>
    addTarget_tablesAfter hlinks position resolved label

/-- A block is added with its successors. -/
theorem addBlock_ofEnds {links : List (List BlockId)} (hlinks : links.length < blocks.length) (b : Block) :
    addBlock f blocks (.ofEnds blocks.length (endsOf links), links.toArray) (b, links.length) =
      (linkBlock f blocks b).map fun targets =>
        (.ofEnds blocks.length (endsOf (links ++ [targets])), (links ++ [targets]).toArray) := by
  dsimp only [addBlock, linkBlock]
  cases checkMerge f blocks b with
  | error d => rfl
  | ok =>
    cases b.terminator? with
    | none => rfl
    | some terminator =>
      dsimp only [targetsOf]
      cases terminator.branchTargets? with
      | none => rfl
      | some labels =>
        dsimp only
        rw [foldlM_addTarget hlinks]
        cases labels.mapM fun label => resolve f blocks label terminator.position with
        | error d => rfl
        | ok resolved => simp [Except.mapError, Except.map, bind, Except.bind, tablesAfter]

/-- Linking gives the successors of each block and the tables that hold the edges to them. -/
theorem link_eq (f : Function) (blocks : List Block) : link f blocks = (linkBlocks f blocks).map fun links =>
    (.ofEnds blocks.length (endsOf links), links.toArray) := by
  have hvalues : blocks.zipIdx.mapM (fun next => linkBlock f blocks next.1) = linkBlocks f blocks := by
    rw [← Function.comp_def (linkBlock f blocks) Prod.fst, ← List.mapM_map, List.zipIdx_map_fst]
    rfl
  have hstart : (EdgeTables.empty blocks.length, #[]) =
      (EdgeTables.ofEnds blocks.length (endsOf []), ([] : List (List BlockId)).toArray) := by
    rw [← EdgeTables.ofEnds_nil]
    rfl
  rw [link, hstart, ← hvalues]
  refine foldlM_eq_map_mapM (fun links => (EdgeTables.ofEnds blocks.length (endsOf links), links.toArray))
    fun links next hnext => ?_
  obtain ⟨hlt, rfl⟩ := List.getElem?_eq_some_iff.mp hnext
  rw [List.length_zipIdx] at hlt
  rw [List.getElem_zipIdx, Nat.zero_add]
  exact addBlock_ofEnds hlt _

end

end FlowGraph
end FlowTree
