import FlowTree.Proofs.Digraph.Traversal

/-!
Dominance by paths. One vertex dominates another when it is on every path from the root to it. What dominates a vertex
other than itself dominates all of its predecessors in reach (`Dominates.of_edge`).
-/

namespace FlowTree
namespace Digraph

/-- A path of edges from the one vertex to the other, with the vertices on it. -/
inductive Path (g : Digraph) (u : Nat) : Nat → List Nat → Prop
  | refl : Path g u u [u]
  | tail {v w : Nat} {vs : List Nat} (path : Path g u v vs) (edge : w ∈ g.successors v) : Path g u w (vs ++ [w])

/-- Every path from the root to `v` goes through `u`. -/
def Dominates (g : Digraph) (root u v : Nat) : Prop := ∀ vs, g.Path root v vs → u ∈ vs

section
variable {g : Digraph} {root u v w : Nat} {vs : List Nat}

theorem Path.mem (h : g.Path u v vs) : v ∈ vs := by
  cases h <;> simp

theorem leads_iff_exists_path : g.Leads u v ↔ ∃ vs, g.Path u v vs := by
  constructor
  · intro h
    induction h with
    | refl => exact ⟨[u], .refl⟩
    | tail _ edge ih =>
      obtain ⟨vs, path⟩ := ih
      exact ⟨_, path.tail edge⟩
  · rintro ⟨vs, path⟩
    induction path with
    | refl => exact .refl
    | tail _ edge ih => exact ih.tail edge

theorem Dominates.refl (g : Digraph) (root v : Nat) : g.Dominates root v v := fun _ path => path.mem

theorem Dominates.eq_root (h : g.Dominates root u root) : u = root :=
  List.mem_singleton.mp (h [root] .refl)

/-- What dominates a vertex other than itself dominates its predecessors. -/
theorem Dominates.of_edge (h : g.Dominates root u w) (hne : u ≠ w) (edge : w ∈ g.successors v) :
    g.Dominates root u v := by
  intro vs path
  rcases List.mem_append.mp (h _ (path.tail edge)) with hmem | hmem
  · exact hmem
  · exact absurd (List.mem_singleton.mp hmem) hne

end

end Digraph
end FlowTree
