import FlowTree.Proofs.Digraph.Dominance
import FlowTree.Proofs.FlowGraph.Reach

/-!
Dominance between the blocks of a built graph, by the paths from its entry. A path into a set of blocks comes in
somewhere: at the entry, or over an edge from a block outside the set.
-/

namespace FlowTree

namespace Digraph

section
variable {g : Digraph} {root u v : Nat} {vs : List Nat}

theorem Path.eq_concat (path : g.Path u v vs) : ∃ ws, vs = ws ++ [v] := by
  cases path with
  | refl => exact ⟨[], rfl⟩
  | tail => exact ⟨_, rfl⟩

/-- A path to a vertex is the start of every path that goes through the vertex. -/
theorem Path.exists_before (path : g.Path u v vs) {x : Nat} (hx : x ∈ vs) : ∃ ws, ws <+: vs ∧ g.Path u x ws := by
  induction path with
  | refl =>
    rw [List.mem_singleton] at hx
    exact ⟨[u], List.prefix_refl _, hx ▸ .refl⟩
  | @tail v w vs path edge ih =>
    rcases List.mem_append.mp hx with hx | hx
    · obtain ⟨ws, hprefix, path'⟩ := ih hx
      exact ⟨ws, hprefix.trans (List.prefix_append _ _), path'⟩
    · obtain rfl := List.mem_singleton.mp hx
      exact ⟨_, List.prefix_refl _, path.tail edge⟩

/-- Where a path comes into a set of vertices for the last time. -/
theorem Path.exists_entered (path : g.Path root v vs) {p : Nat → Prop} (hv : p v) :
    ∃ w ∈ vs, p w ∧ (w = root ∨ ∃ u ∈ vs, ¬p u ∧ w ∈ g.successors u) := by
  induction path with
  | refl => exact ⟨root, List.mem_singleton_self root, hv, Or.inl rfl⟩
  | @tail u v vs path edge ih =>
    by_cases hu : p u
    · obtain ⟨w, hw, hpw, hentered⟩ := ih hu
      refine ⟨w, List.mem_append_left _ hw, hpw, hentered.imp_right ?_⟩
      rintro ⟨u', hu', houtside⟩
      exact ⟨u', List.mem_append_left _ hu', houtside⟩
    · exact ⟨v, by simp, hv, Or.inr ⟨u, List.mem_append_left _ path.mem, hu, edge⟩⟩

end

end Digraph

namespace FlowGraph

section
variable {f : Function} {g : FlowGraph} {a b : BlockId}

theorem Linked.entry_lt (hg : g.Linked) : g.entry < g.digraph.size := (size_digraph g).symm ▸ hg.size_pos

theorem Linked.mem_postorder (hg : g.Linked) : b ∈ g.digraph.postorder g.entry ↔ g.Reached b :=
  (Digraph.mem_postorder hg.inRange).trans hg.leads_digraph

theorem Linked.exists_path (hg : g.Linked) (hb : g.Reached b) : ∃ vs, g.digraph.Path g.entry b vs :=
  Digraph.leads_iff_exists_path.mp (hg.leads_digraph.mpr hb)

theorem Linked.reached_of_path (hg : g.Linked) {vs : List BlockId} (path : g.digraph.Path g.entry b vs) {x : BlockId}
    (hx : x ∈ vs) : g.Reached x := by
  obtain ⟨ws, -, path'⟩ := path.exists_before hx
  exact hg.leads_digraph.mp (Digraph.leads_iff_exists_path.mpr ⟨ws, path'⟩)

/-- The blocks that the dominator tree of a built graph says dominate a block are those on all paths to it. -/
theorem dominates_iff (h : build f = .ok g) :
    g.dominators.dominates a b = true ↔ g.Reached b ∧ g.digraph.Dominates g.entry a b := by
  have hg := build_linked h
  obtain ⟨links, -, hsettled, heq⟩ := Digraph.dominators_eq hg.inRange hg.entry_lt
  have htree := fun ha hb => Digraph.dominates_dominatorTree (u := a) (v := b) hg.inRange hg.entry_lt hsettled
    (hg.mem_postorder.mpr ha) (hg.mem_postorder.mpr hb)
  constructor
  · intro hdom
    obtain ⟨ha, hb⟩ := Digraph.reaches_of_dominates hdom
    rw [reaches_iff_reached h] at ha hb
    rw [build_dominators h, heq, htree ha hb] at hdom
    exact ⟨hb, hsettled.dominates hg.inRange hdom⟩
  · rintro ⟨hb, hpaths⟩
    obtain ⟨vs, path⟩ := hg.exists_path hb
    have ha : g.Reached a := hg.reached_of_path path (hpaths vs path)
    rw [build_dominators h, heq, htree ha hb]
    exact hsettled.covers b a (hsettled.full b (hg.mem_postorder.mpr hb)) hpaths

/-- Every block in reach but the entry has an immediate dominator, another block that dominates it. -/
theorem exists_immediate? (h : build f = .ok g) (hb : g.Reached b) (hentry : b ≠ g.entry) :
    ∃ a, g.dominators.immediate? b = some a ∧ a ≠ b ∧ g.dominators.dominates a b = true := by
  have hg := build_linked h
  obtain ⟨links, -, hsettled, heq⟩ := Digraph.dominators_eq hg.inRange hg.entry_lt
  obtain ⟨a, hlink⟩ := hsettled.full b (hg.mem_postorder.mpr hb)
  obtain ⟨hne, hdom, -⟩ := hsettled.nearest hg.inRange hentry hlink
  refine ⟨a, ?_, hne, (dominates_iff h).mpr ⟨hb, hdom⟩⟩
  rw [build_dominators h, heq, Digraph.immediate?_dominatorTree hsettled.toRising hg.entry_lt]
  exact ⟨hentry, hlink⟩

end

end FlowGraph
end FlowTree
