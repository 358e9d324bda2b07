import FlowTree.Proofs.Digraph.Dominators
import FlowTree.Proofs.FlowGraph.Linked

/-!
Blocks in reach. The dominator tree of a built graph is that of its successors, and it reaches just the blocks
that a path of edges leads to from the entry.
-/

namespace FlowTree
namespace FlowGraph

/-- The blocks of a graph with their successors. -/
def digraph (g : FlowGraph) : Digraph := ⟨(Array.range g.size).map g.successors⟩

section
variable {f : Function} {g : FlowGraph}

theorem size_digraph (g : FlowGraph) : g.digraph.size = g.size := by simp [digraph, Digraph.size]

theorem Linked.successors_digraph (hg : g.Linked) (b : BlockId) : g.digraph.successors b = g.successors b := by
  by_cases hb : b < g.size
  · simp [digraph, Digraph.successors, hb]
  · simp [digraph, Digraph.successors, hb, hg.successors_eq_nil hb]

theorem Linked.leads_digraph (hg : g.Linked) {a b : BlockId} : g.digraph.Leads a b ↔ g.Leads a b := by
  unfold Digraph.Leads FlowGraph.Leads
  simp only [hg.successors_digraph]

theorem Linked.inRange (hg : g.Linked) : g.digraph.InRange := by
  intro u v hv
  rw [hg.successors_digraph] at hv
  obtain ⟨e, he⟩ := mem_successors_iff.mp hv
  exact (size_digraph g).symm ▸ hg.transfers_lt he

theorem Linked.lt_of_reached (hg : g.Linked) {b : BlockId} (h : g.Reached b) : b < g.size := by
  rcases Relation.ReflTransGen.cases_tail h with rfl | ⟨c, -, hc⟩
  · exact hg.size_pos
  · obtain ⟨e, he⟩ := mem_successors_iff.mp hc
    exact hg.transfers_lt he

/-- The dominator tree of a built graph is that of its successors. -/
theorem build_dominators (h : build f = .ok g) : g.dominators = g.digraph.dominators g.entry := by
  obtain ⟨blocks, links, -, hlink, rfl⟩ := build_eq_ok h
  have hlength := (linkBlocks_ok hlink).length_eq
  have hdigraph : (ofLinks f blocks links).digraph = ⟨links.toArray⟩ := by
    unfold digraph
    congr 1
    refine Array.ext (by simp [size, hlength]) fun b hb hb' => ?_
    have hb' : b < links.length := by simpa using hb'
    simp [successors_ofLinks hlength, hb']
  rw [hdigraph]
  rfl

/-- The dominator tree of a built graph reaches the blocks that a path leads to. -/
theorem reaches_iff_reached (h : build f = .ok g) {b : BlockId} : g.dominators.reaches b = true ↔ g.Reached b := by
  have hg := build_linked h
  rw [build_dominators h, Digraph.reaches_iff hg.inRange ((size_digraph g).symm ▸ hg.size_pos), hg.leads_digraph]
  rfl

end

end FlowGraph
end FlowTree
