import FlowTree.Proofs.FlowGraph.Linked
import FlowTree.Tree.Structuring

/-!
What structuring sees of a graph. Of the instructions of a block it looks at the terminator and at the merge instruction
right before it, and of the function at nothing. So it does the same to a graph and to what is left of it when all else
is taken away (`root_glance`), and graphs that look the same are structured in the same way.
-/

namespace FlowTree

/-- The block with its merge instruction and its terminator only. -/
def Block.glance (b : Block) : Block := { b with instructions := b.merge?.toList ++ b.terminator?.toList }

/-- The graph with what structuring sees of its blocks. -/
def FlowGraph.glance (g : FlowGraph) : FlowGraph :=
  { g with function := { name := "" }, blocks := g.blocks.map Block.glance }

theorem Block.instructions_glance_of_nil {b : Block} (h : b.instructions = []) : b.glance.instructions = [] := by
  simp [glance, merge?, terminator?, h]

theorem Block.instructions_glance_of_concat {b : Block} {front : List Instruction} {i : Instruction}
    (h : b.instructions = front ++ [i]) : b.glance.instructions = b.merge?.toList ++ [i] := by
  simp [glance, terminator?, h]

theorem Block.terminator?_glance (b : Block) : b.glance.terminator? = b.terminator? := by
  unfold terminator?
  rcases List.eq_nil_or_concat' b.instructions with hnil | ⟨front, i, hconcat⟩
  · rw [instructions_glance_of_nil hnil, hnil]
  · rw [instructions_glance_of_concat hconcat, hconcat, List.getLast?_concat, List.getLast?_concat]

theorem Block.merge?_glance (b : Block) : b.glance.merge? = b.merge? := by
  rcases List.eq_nil_or_concat' b.instructions with hnil | ⟨front, i, hconcat⟩
  · simp [merge?, instructions_glance_of_nil hnil, hnil]
  · have hmerge := FlowGraph.merge?_of_concat hconcat
    rw [FlowGraph.merge?_of_concat (instructions_glance_of_concat hconcat), hmerge]
    cases front.getLast? with
    | none => rfl
    | some m => by_cases hop : m.op.isMerge = true <;> simp [Option.filter, hop]

namespace FlowGraph

variable (g : FlowGraph)

theorem block?_glance (b : BlockId) : g.glance.block? b = (g.block? b).map Block.glance := by
  simp [block?, glance]

theorem blockName_glance : g.glance.blockName = g.blockName := by
  funext b
  simp only [blockName, block?_glance, Option.map_map]
  rfl

theorem blockOf?_glance : g.glance.blockOf? = g.blockOf? := by
  funext label
  simp only [blockOf?, glance, Array.findIdx?_map]
  rfl

theorem size_glance : g.glance.size = g.size := by
  simp [size, glance]

end FlowGraph

/-! ### Structuring -/

namespace Structuring

variable (g : FlowGraph)

/-- A block of the graph is looked at. -/
theorem bind_item_glance {α : Type} (b : BlockId) (next : Block → Structuring α) :
    (item g.glance.blocks b >>= next) = item g.blocks b >>= fun block => next block.glance := by
  have hfound : g.glance.blocks[b]? = g.blocks[b]?.map Block.glance := g.block?_glance b
  unfold item
  rw [hfound]
  cases g.blocks[b]? with
  | none =>
    rw [show g.glance.blocks.size = g.blocks.size from g.size_glance]
    rfl
  | some block => rfl

theorem terminatorOf_glance : terminatorOf g.glance = terminatorOf g := by
  funext b
  unfold terminatorOf
  rw [bind_item_glance]
  refine congrArg _ (funext fun block => ?_)
  rw [Block.terminator?_glance]
  cases hends : block.terminator? with
  | none =>
    have hnil : block.instructions = [] := List.getLast?_eq_none_iff.mp hends
    simp only [Block.instructions_glance_of_nil hnil, hnil]
  | some i => rfl

theorem reject_glance {α : Type} : @reject α g.glance = reject g := by
  funext kind b detail targets
  have hbind : ∀ {p : Block → Option Instruction}, (∀ block, p block.glance = p block) →
      (g.glance.block? b).bind p = (g.block? b).bind p := by
    intro p hp
    rw [FlowGraph.block?_glance]
    cases g.block? b with
    | none => rfl
    | some block => exact hp block
  have hrejection : Rejection.atBlock g.glance kind b detail targets = .atBlock g kind b detail targets := by
    simp only [Rejection.atBlock, FlowGraph.blockName_glance, hbind Block.merge?_glance, hbind Block.terminator?_glance]
  simp only [reject, terminatorOf_glance, bind_item_glance, hrejection]

theorem tieChild_glance : tieChild g.glance = tieChild g := by
  funext node child
  rcases child with ⟨id | b, i⟩
  · rfl
  · simp only [tieChild, placeBlock, bind_item_glance, Placement.put, FlowGraph.blockName_glance]

theorem addNode_glance : addNode g.glance = addNode g := by
  funext kind children depth exits
  simp only [addNode, tieChild_glance]

theorem addPart_glance : addPart g.glance = addPart g := by
  funext kind children depth exits
  simp only [addPart, addNode_glance]

theorem blockOf_glance : blockOf g.glance = blockOf g := by
  funext label
  simp only [blockOf, FlowGraph.blockOf?_glance]

theorem visit_glance : visit g.glance = visit g := by
  funext b
  simp only [visit, bind_item_glance, reject_glance]

theorem blockExits_glance : blockExits g.glance = blockExits g := by
  funext b
  unfold blockExits
  rw [terminatorOf_glance]
  rfl

theorem loop_glance : loop g.glance = loop g := by
  funext nested header merge exits depth
  have hspans : loopSpans g.glance = loopSpans g := rfl
  simp only [loop, blockOf_glance, hspans, addPart_glance, addNode_glance]

theorem ifThen_glance : ifThen g.glance = ifThen g := by
  funext nested header terminator exits depth
  have hedge : g.glance.edgeBetween? = g.edgeBetween? := rfl
  simp only [ifThen, blockOf_glance, hedge, addPart_glance, addNode_glance]

theorem switch_glance : switch g.glance = switch g := by
  funext nested header terminator exits depth
  have hedge : g.glance.edgeBetween? = g.edgeBetween? := rfl
  have harm : switchArm g.glance = switchArm g := by
    funext nested targets exits depth target
    simp only [switchArm, reject_glance]
  have horder : orderCases g.glance = orderCases g := by
    funext arms
    simp only [orderCases, reject_glance]
  simp only [switch, blockOf_glance, hedge, harm, horder, addNode_glance]

theorem construct_glance : construct g.glance = construct g := by
  funext nested b exits depth
  have hselection : selection g.glance = selection g := by
    funext nested header merge exits depth
    simp only [selection, blockOf_glance, terminatorOf_glance, ifThen_glance, switch_glance, reject_glance]
  simp only [construct, visit_glance, bind_item_glance, Block.merge?_glance, blockExits_glance, loop_glance, hselection]

/-- Spans are structured as what is seen of them, by induction on the budget. -/
theorem span_glance (budget : Nat) : span g.glance budget = span g budget := by
  induction budget with
  | zero => rfl
  | succ budget ih =>
    funext start exits depth
    simp only [span, construct_glance, ih, reject_glance]

/-- Structuring does not look at anything else. -/
theorem root_glance : root g.glance = root g := by
  have hentry : g.glance.entry = g.entry := rfl
  simp only [root, FlowGraph.size_glance, span_glance, hentry, addNode_glance]

end Structuring

end FlowTree
