import FlowTree.Proofs.Digraph.Settling

/-!
The dominator tree of the vertices in reach. Every vertex in reach but the root hangs below the vertex that it is
linked to, which has a higher rank, so the traversal of the tree enters the vertices in reach and no other.
-/

namespace FlowTree
namespace Digraph

open Dominators

section
variable {g : Digraph} {root : Nat} {links : Links}

theorem dominatorsFrom_eq {preds : Array (List Nat)} (hpreds : g.Mirrors preds) (hg : g.InRange) (hroot : root < g.size) :
    ∃ links, g.linksFrom? preds root = some links ∧ Settled g root links ∧
      g.dominatorsFrom preds root = g.dominatorTree root links := by
  obtain ⟨links, hlinks, hsettled⟩ := linksFrom?_eq_some hpreds hg hroot
  exact ⟨links, hlinks, hsettled, by simp [dominatorsFrom, hlinks]⟩

theorem dominators_eq (hg : g.InRange) (hroot : root < g.size) : ∃ links, g.dominatorLinks? root = some links ∧
    Settled g root links ∧ g.dominators root = g.dominatorTree root links :=
  dominatorsFrom_eq g.mirrors_sources hg hroot

/-- The vertices that hang below a vertex in the tree. -/
def below (g : Digraph) (root : Nat) (links : Links) : Digraph :=
  ⟨(Array.range g.size).map fun v => (g.postorder root).reverse.filter fun w =>
    (links.setIfInBounds root none)[w]?.join = some v⟩

/-- The root hangs below no vertex, and any other one below the vertex that it is linked to. -/
theorem join_unrooted (h : Rising g root links) (hroot : root < g.size) {u v : Nat} :
    (links.setIfInBounds root none)[v]?.join = some u ↔ v ≠ root ∧ links[v]?.join = some u := by
  by_cases heq : root = v
  · subst heq
    simp [h.size_eq, hroot]
  · rw [Array.getElem?_setIfInBounds_ne heq]
    simp [Ne.symm heq]

theorem mem_below (h : Rising g root links) (hg : g.InRange) (hroot : root < g.size) {u v : Nat} :
    v ∈ (g.below root links).successors u ↔ v ≠ root ∧ links[v]?.join = some u := by
  by_cases hu : u < g.size
  · simp only [below, successors, Array.getElem?_map, Array.getElem?_range, if_pos hu, Option.map_some, Option.getD_some,
      List.mem_filter, List.mem_reverse, decide_eq_true_eq, join_unrooted h hroot]
    exact ⟨fun hv => hv.2, fun hv => ⟨(h.listed v u hv.2).1, hv⟩⟩
  · simp only [below, successors, Array.getElem?_map, Array.getElem?_range, if_neg hu, Option.map_none, Option.getD_none,
      List.not_mem_nil, false_iff]
    exact fun hv => hu (postorder_lt hg hroot (h.mem (h.listed v u hv.2).2))

theorem below_inRange (h : Rising g root links) (hg : g.InRange) (hroot : root < g.size) :
    (g.below root links).InRange := by
  intro u v hv
  have hmem := (h.listed v u ((mem_below h hg hroot).mp hv).2).1
  simpa [below, size] using postorder_lt hg hroot hmem

/-- In the tree a vertex leads to those from which climbing leads to it. -/
theorem leads_below (h : Rising g root links) (hg : g.InRange) (hroot : root < g.size) {u v : Nat} :
    (g.below root links).Leads u v ↔ Above links v u := by
  constructor
  · intro hlead
    induction hlead with
    | refl => exact .refl
    | tail _ hstep ih => exact .of_link ((mem_below h hg hroot).mp hstep).2 ih
  · intro habove
    induction habove using Relation.ReflTransGen.head_induction_on with
    | refl => exact .refl
    | @head x y hlink _ ih =>
      by_cases hx : x = root
      · have hy := h.root_link
        rw [← hx, hlink, Option.some.injEq] at hy
        exact hy ▸ ih
      · exact ih.tail ((mem_below h hg hroot).mpr ⟨hx, hlink⟩)

/-- Climbing from a linked vertex leads to the root. -/
theorem Rising.above_root (h : Rising g root links) {v : Nat} (hv : HasLink links v) : Above links v root := by
  induction hn : g.rank root root - g.rank root v using Nat.strongRecOn generalizing v with
  | _ n ih =>
    by_cases heq : v = root
    · exact heq ▸ .refl
    · obtain ⟨u, hu⟩ := hv
      have hrises := h.rises v u hu heq
      have hle := h.rank_le_root (h.listed v u hu).2
      exact .of_link hu (ih _ (by omega) (h.listed v u hu).2 rfl)

/-- The tree holds the vertices in reach. -/
theorem leads_below_iff (hg : g.InRange) (hroot : root < g.size) (h : Settled g root links) {v : Nat} :
    (g.below root links).Leads root v ↔ v ∈ g.postorder root := by
  constructor
  · intro hv
    rcases Relation.ReflTransGen.cases_tail hv with rfl | ⟨u, -, hstep⟩
    · exact root_mem_postorder g v
    · exact (h.listed v u ((mem_below h.toRising hg hroot).mp hstep).2).1
  · exact fun hv => (leads_below h.toRising hg hroot).mpr (h.above_root (h.full v hv))

theorem entered_dominatorTree {v : Nat} (hv : v < g.size) : (g.dominatorTree root links).entered[v]?.join =
    ((g.below root links).visits root).idxOf? (.enter v) := by
  simp [dominatorTree, below, hv]

theorem left_dominatorTree {v : Nat} (hv : v < g.size) : (g.dominatorTree root links).left[v]?.join =
    ((g.below root links).visits root).idxOf? (.leave v) := by
  simp [dominatorTree, below, hv]

/-- The tree reaches the vertices that can be reached. -/
theorem reaches_dominatorTree (hg : g.InRange) (hroot : root < g.size) (hsettled : Settled g root links) {v : Nat} :
    (g.dominatorTree root links).reaches v = true ↔ g.Leads root v := by
  have htour : (g.dominatorTree root links).reaches v = true ↔
      v < g.size ∧ .enter v ∈ (g.below root links).visits root := by
    by_cases hv : v < g.size
    · rw [reaches, entered_dominatorTree hv, List.isSome_idxOf?]
      exact (and_iff_right hv).symm
    · simp [reaches, dominatorTree, hv]
  rw [htour, ← mem_entries, mem_entries_visits (below_inRange hsettled.toRising hg hroot),
    leads_below_iff hg hroot hsettled,
    mem_postorder hg]
  exact ⟨fun h => h.2, fun h => ⟨postorder_lt hg hroot ((mem_postorder hg).mpr h), h⟩⟩

theorem reaches_iff (hg : g.InRange) (hroot : root < g.size) {v : Nat} :
    (g.dominators root).reaches v = true ↔ g.Leads root v := by
  obtain ⟨links, -, hsettled, heq⟩ := dominators_eq hg hroot
  rw [heq, reaches_dominatorTree hg hroot hsettled]

end

end Digraph
end FlowTree
