import FlowTree.Proofs.FlowGraph.Grammar
import FlowTree.Proofs.FlowGraph.Reach
import FlowTree.Proofs.Tree.Built

/-!
Building a graph and structuring it always come to an answer. What a fault would report cannot happen: every block that
is cut ends in a terminator and every edge is between blocks, also where the function is rejected in the end; every label
that is looked up has a block, every number that is looked up is in its table, nodes have the shape of their kind and get
one parent, blocks get one place, no loose end is left at the root, and the blocks to visit do not run out.
-/

namespace FlowTree

/-- A function is either rejected for a reason that is reported, or has a graph whose blocks all end in terminators, whose
edges stay in the graph and whose dominators settle without a missing link. No index runs out of a list on the way: the
blocks that are cut end in terminators whether or not they can be linked. From a graph without places structuring then
gives a tree or rejects the control flow. -/
theorem structuring_never_faults (f : Function) :
    (∀ blocks, FlowGraph.cutBlocks f = .ok blocks → ∀ b ∈ blocks, FlowGraph.Terminated b) ∧
    ((∃ d, FlowGraph.build f = .error (.rejected d)) ∨ ∃ g, FlowGraph.build f = .ok g ∧
      (∀ b < g.size, ∃ block, g.block? b = some block ∧ FlowGraph.Terminated block) ∧ g.digraph.InRange ∧
      (∃ links, g.digraph.dominatorLinks? g.entry = some links ∧
        g.dominators = g.digraph.dominatorTree g.entry links) ∧
      ∀ before : Placement, (∀ b, before.place? b = none) →
        (∃ t, (Tree.build g before).1 = .ok t) ∨ ∃ r, (Tree.build g before).1 = .error (.rejected r)) := by
  refine ⟨fun blocks hcut => (FlowGraph.cutBlocks_ok hcut).2, ?_⟩
  cases h : FlowGraph.build f with
  | error halt =>
    obtain ⟨d, rfl, -⟩ := FlowGraph.build_error h
    exact Or.inl ⟨d, rfl⟩
  | ok g =>
    have hg := FlowGraph.build_linked h
    refine Or.inr ⟨g, rfl, fun b hb => ?_, hg.inRange, ?_, fun before hnone => ?_⟩
    · obtain ⟨block, found⟩ := FlowGraph.block?_eq_some_of_lt hb
      exact ⟨block, found, FlowGraph.build_terminated h found⟩
    · have hentry : g.entry < g.digraph.size := (FlowGraph.size_digraph g).symm ▸ hg.size_pos
      obtain ⟨links, hlinks, -, htree⟩ := Digraph.dominators_eq hg.inRange hentry
      exact ⟨links, hlinks, (FlowGraph.build_dominators h).trans htree⟩
    · cases hbuild : (Tree.build g before).1 with
      | ok t => exact Or.inl ⟨t, rfl⟩
      | error e =>
        rcases Tree.build_error hg hbuild with ⟨r, rfl⟩ | ⟨b, place, hplace⟩
        · exact Or.inr ⟨r, rfl⟩
        · rw [hnone] at hplace
          cases hplace

end FlowTree
