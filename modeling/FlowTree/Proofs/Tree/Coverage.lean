import FlowTree.Proofs.FlowGraph.Reach
import FlowTree.Proofs.Tree.Walk

/-!
Which blocks a tree has. They are the blocks in reach, each once, and these are the blocks that have a place
afterwards when none had one before.
-/

namespace FlowTree

open Sketch Structuring

namespace Tree

/-- The block has its place in the tree: it is the child that stands there. -/
def Stands (t : Tree) (b : BlockId) : Prop :=
  ∃ (id : NodeId) (n : Node) (i : Nat), t.node? id = some n ∧ n.children[i]? = some (.block b) ∧ t.place? b = some ⟨id, i⟩

section
variable {g : FlowGraph} {before : Placement} {t : Tree} {sketch : Sketch} {unvisited : List BlockId} {b : BlockId}

/-- A block in a node has its place. -/
theorem stands_of_draws {c : Child} {depth : Nat} {s : Sketch} (h : Draws (t.draft unvisited) c depth s)
    (hb : b ∈ s.blocks) (hlt : b < t.places.size) : c = .block b ∨ t.Stands b := by
  induction h with
  | block b' =>
    rw [blocks_block, List.mem_singleton] at hb
    exact Or.inl (congrArg _ hb.symm)
  | @node id n depth parts found depth_eq first_eq length_eq tied inside ih =>
    rw [blocks_node] at hb
    obtain ⟨part, hpart, hb⟩ := mem_blocksOf.mp hb
    obtain ⟨i, hi⟩ := List.mem_iff_getElem?.mp hpart
    have hc := List.getElem?_eq_getElem (length_eq ▸ (List.getElem?_eq_some_iff.mp hi).1 : i < n.children.length)
    rcases ih i _ part hc hi hb with hblock | hstands
    · have htied := tied i _ hc
      rw [hblock] at htied hc
      exact Or.inr ⟨id, n, i, found, hc, htied hlt⟩
    · exact Or.inr hstands

theorem Built.stands (h : Built g before t sketch unvisited) (hsize : before.size = g.size) (hb : b < g.size)
    (hmem : b ∈ sketch.blocks) : t.Stands b := by
  have hlt : b < t.places.size := h.drawn.places_size.symm ▸ hsize.symm ▸ hb
  exact (stands_of_draws h.draws hmem hlt).resolve_left (by simp)

/-- The blocks in reach have places, and the others have those from before. -/
theorem Built.place?_eq (h : Built g before t sketch unvisited) (hsize : before.size = g.size) (hb : b < g.size) :
    (b ∈ sketch.blocks → ∃ place, t.place? b = some place) ∧
      (b ∉ sketch.blocks → t.place? b = before.place? b) := by
  refine ⟨fun hmem => ?_, fun hmem => ?_⟩
  · obtain ⟨id, n, i, -, -, hplace⟩ := h.stands hsize hb hmem
    exact ⟨_, hplace⟩
  · exact h.drawn.frame b (by simpa [Piece.inner] using hmem)

end

end Tree

/-- The blocks of a tree are those that a path from the entry leads to, each once. They are also the blocks that
the dominator tree reaches, and the blocks without a place are the others. -/
theorem blockList_covers {f : Function} {g : FlowGraph} {t : Tree} (accepted : FlowGraph.build f = .ok g)
    (structured : (Tree.build g (.none g)).1 = .ok t) :
    (t.blockList none).Nodup ∧ (∀ b, b ∈ t.blockList none ↔ g.Reached b) ∧
      (∀ b, b ∈ t.blockList none ↔ g.dominators.reaches b = true) ∧
      ∀ b < g.size, t.place? b = none ↔ b ∈ g.unreachable := by
  have hg := FlowGraph.build_linked accepted
  obtain ⟨sketch, unvisited, h⟩ := Tree.build_ok hg structured
  have hreached : ∀ b, b ∈ t.blockList none ↔ g.Reached b := fun b => by
    rw [h.blockList_eq, h.mem_blocks_iff hg]
  have hreaches : ∀ b, b ∈ t.blockList none ↔ g.dominators.reaches b = true := fun b => by
    rw [hreached, FlowGraph.reaches_iff_reached accepted]
  refine ⟨h.blockList_eq ▸ h.nodup, hreached, hreaches, fun b hb => ?_⟩
  have hplace := h.place?_eq (by simp [Placement.none]) hb
  have hmem : b ∈ g.unreachable ↔ b ∉ sketch.blocks := by
    rw [← h.blockList_eq, hreaches]
    simp [FlowGraph.unreachable, hb]
  rw [hmem]
  constructor
  · intro hnone hb
    obtain ⟨place, hsome⟩ := hplace.1 hb
    rw [hnone] at hsome
    cases hsome
  · exact fun hb => (hplace.2 hb).trans (Tree.place?_none g b)

/-- A loop is covered, and the block behind it that is out of reach is left out. -/
theorem blockList_covers_loop : ∃ g t, FlowGraph.build loopSample = .ok g ∧ (Tree.build g (.none g)).1 = .ok t ∧
    (t.blockList none).Nodup ∧ (∀ b, b ∈ t.blockList none ↔ g.Reached b) ∧
      (∀ b, b ∈ t.blockList none ↔ g.dominators.reaches b = true) ∧
      ∀ b < g.size, t.place? b = none ↔ b ∈ g.unreachable := by
  obtain ⟨g, t, hbuild, htree, -⟩ := loopSample_built
  exact ⟨g, t, hbuild, htree, blockList_covers hbuild htree⟩

end FlowTree
