import FlowTree.Proofs.Digraph.Dominators
import FlowTree.Proofs.Digraph.Tours
import Mathlib

/-!
The dominator tree tells dominance. Climbing along settled links goes through the dominators of a vertex and nothing
else: what is above a vertex is above all of its predecessors, so it is on every path, and no link passes over a
dominator. The vertices above are the ancestors in the tree, and those are the vertices whose visits enclose the visit
of the vertex.
-/

namespace FlowTree
namespace Digraph

open Dominators

theorem inRange_iff {g : Digraph} : g.InRange ↔ ∀ u < g.size, ∀ v ∈ g.successors u, v < g.size := by
  constructor
  · exact fun hg u _ => hg u
  · exact fun hg u v hv => hg u (lt_of_mem_successors hv) v hv

instance (g : Digraph) : Decidable g.InRange := decidable_of_iff _ inRange_iff.symm

theorem mirrors_iff {g : Digraph} {preds : Array (List Nat)} : g.Mirrors preds ↔ preds.size = g.size ∧
    ∀ v < g.size, (∀ u ∈ preds[v]?.getD [], v ∈ g.successors u) ∧
      ∀ u < g.size, v ∈ g.successors u → u ∈ preds[v]?.getD [] := by
  constructor
  · exact fun h => ⟨h.size_eq, fun v hv => ⟨fun u => (h.mem_iff v hv u).mp, fun u _ => (h.mem_iff v hv u).mpr⟩⟩
  · rintro ⟨hsize, hmem⟩
    exact ⟨hsize, fun v hv u => ⟨(hmem v hv).1 u, fun hu => (hmem v hv).2 u (lt_of_mem_successors hu) hu⟩⟩

instance (g : Digraph) (preds : Array (List Nat)) : Decidable (g.Mirrors preds) := decidable_of_iff _ mirrors_iff.symm

section
variable {g : Digraph} {root : Nat} {links : Links}

/-- Nothing is above the root but the root. -/
theorem Rising.eq_root (h : Rising g root links) {z : Nat} (hz : Above links root z) : z = root := by
  induction hz with
  | refl => rfl
  | tail _ hlink ih =>
    rw [ih, h.root_link, Option.some.injEq] at hlink
    exact hlink.symm

/-- What is above a vertex is on every path to it. -/
theorem Settled.dominates (hg : g.InRange) (h : Settled g root links) {v z : Nat} (hz : Above links v z) :
    g.Dominates root z v := by
  intro vs path
  induction path with
  | refl => exact List.mem_singleton.mpr (h.eq_root hz)
  | @tail p w vs path edge ih =>
    have hlead : g.Leads root p := leads_iff_exists_path.mpr ⟨vs, path⟩
    by_cases hw : w = root
    · subst hw
      exact List.mem_append_right _ (List.mem_singleton.mpr (h.eq_root hz))
    · obtain ⟨u, hu⟩ := h.full w ((mem_postorder hg).mpr (hlead.tail edge))
      rcases (above_iff hu).mp hz with rfl | hz
      · exact List.mem_append_right _ (List.mem_singleton_self _)
      · have hp : Above links p z := (h.joined w u hu hw z).mp hz p edge (h.full p ((mem_postorder hg).mpr hlead))
        exact List.mem_append_left _ (ih hp)

/-! ### Dominance -/

theorem idxOf?_of_mem {α : Type} [DecidableEq α] {xs : List α} {a : α} (h : a ∈ xs) :
    xs.idxOf? a = some (xs.idxOf a) := by
  obtain ⟨i, hi⟩ := Option.isSome_iff_exists.mp (List.isSome_idxOf?.mpr h)
  rw [List.idxOf_eq_getD_idxOf?, hi, Option.getD_some]

/-- The numbers of the events at a vertex in reach. -/
theorem dominatorTree_times (hg : g.InRange) (hroot : root < g.size) (h : Settled g root links) {v : Nat}
    (hv : v ∈ g.postorder root) :
    (g.dominatorTree root links).entered[v]?.join = some (((g.below root links).visits root).idxOf (.enter v)) ∧
      (g.dominatorTree root links).left[v]?.join = some (((g.below root links).visits root).idxOf (.leave v)) := by
  have hlt := postorder_lt hg hroot hv
  have hentered : v ∈ entries ((g.below root links).visits root) :=
    (mem_entries_visits (below_inRange h.toRising hg hroot)).mpr ((leads_below_iff hg hroot h).mpr hv)
  have hleft : Visit.leave v ∈ (g.below root links).visits root :=
    ((tour_visits _ root).sublist hentered).subset (by simp)
  rw [entered_dominatorTree hlt, left_dominatorTree hlt]
  exact ⟨idxOf?_of_mem (mem_entries.mp hentered), idxOf?_of_mem hleft⟩

/-- The vertices that the tree says dominate a vertex in reach are those that climbing leads to. -/
theorem dominates_dominatorTree (hg : g.InRange) (hroot : root < g.size) (h : Settled g root links) {u v : Nat}
    (hu : u ∈ g.postorder root) (hv : v ∈ g.postorder root) :
    (g.dominatorTree root links).dominates u v = true ↔ Above links v u := by
  have hbelow := below_inRange h.toRising hg hroot
  have hmem : ∀ x ∈ g.postorder root, x ∈ entries ((g.below root links).visits root) := fun x hx =>
    (mem_entries_visits hbelow).mpr ((leads_below_iff hg hroot h).mpr hx)
  have hnoRoot : ∀ x, root ∉ (g.below root links).successors x := fun x hx =>
    ((mem_below h.toRising hg hroot).mp hx).1 rfl
  have hunique : ∀ x x' y, y ∈ (g.below root links).successors x → y ∈ (g.below root links).successors x' → x = x' := by
    intro x x' y hx hx'
    have hlink := ((mem_below h.toRising hg hroot).mp hx).2
    rw [((mem_below h.toRising hg hroot).mp hx').2, Option.some.injEq] at hlink
    exact hlink.symm
  obtain ⟨henteredU, hleftU⟩ := dominatorTree_times hg hroot h hu
  obtain ⟨henteredV, hleftV⟩ := dominatorTree_times hg hroot h hv
  unfold dominates
  rw [henteredU, henteredV, hleftU, hleftV, ← leads_below h.toRising hg hroot,
    ← encloses_iff_leads hbelow hnoRoot hunique (hmem u hu) (hmem v hv)]
  simp

/-- A vertex out of reach neither dominates nor is dominated. -/
theorem reaches_of_dominates {d : Dominators} {u v : Nat} (h : d.dominates u v = true) :
    d.reaches u = true ∧ d.reaches v = true := by
  unfold dominates at h
  split at h
  · rename_i hu hv _ _
    simp [reaches, hu, hv]
  · cases h

/-- Dominance is found for every graph whose edges and predecessors agree: the vertices in reach are those with a path
from the root, and the vertices that dominate one of them are those on all of its paths. -/
theorem dominance_by_paths (hg : g.InRange) {preds : Array (List Nat)} (hpreds : g.Mirrors preds)
    (hroot : root < g.size) :
    ∃ links, g.linksFrom? preds root = some links ∧ g.dominatorsFrom preds root = g.dominatorTree root links ∧
      ∀ a b, ((g.dominatorsFrom preds root).reaches b = true ↔ ∃ vs, g.Path root b vs) ∧
        ((g.dominatorsFrom preds root).dominates a b = true ↔
          (∃ vs, g.Path root a vs) ∧ (∃ vs, g.Path root b vs) ∧ g.Dominates root a b) := by
  obtain ⟨links, hlinks, hsettled, heq⟩ := dominatorsFrom_eq hpreds hg hroot
  refine ⟨links, hlinks, heq, fun a b => ?_⟩
  have hreach : ∀ v, (g.dominatorTree root links).reaches v = true ↔ ∃ vs, g.Path root v vs := fun v =>
    (reaches_dominatorTree hg hroot hsettled).trans leads_iff_exists_path
  have hmem : ∀ {v}, (∃ vs, g.Path root v vs) → v ∈ g.postorder root := fun hv =>
    (mem_postorder hg).mpr (leads_iff_exists_path.mpr hv)
  rw [heq]
  refine ⟨hreach b, fun hab => ?_, fun ⟨ha, hb, hpaths⟩ => ?_⟩
  · obtain ⟨ha, hb⟩ := reaches_of_dominates hab
    have ha := (hreach a).mp ha
    have hb := (hreach b).mp hb
    exact ⟨ha, hb, hsettled.dominates hg ((dominates_dominatorTree hg hroot hsettled (hmem ha) (hmem hb)).mp hab)⟩
  · exact (dominates_dominatorTree hg hroot hsettled (hmem ha) (hmem hb)).mpr
      (hsettled.covers b a (hsettled.full b (hmem hb)) hpaths)

end

/-- A graph with two ways into a circle, repeated edges, an edge from a vertex to itself and a vertex out of reach. -/
def twoWays : Digraph := ⟨#[[1, 2], [2, 2], [1, 3], [3, 2], [4, 3]]⟩

/-- The predecessors in `twoWays`, in no particular order. -/
def twoWaysSources : Array (List Nat) := #[[], [2, 0], [3, 1, 0], [4, 3, 2], [4]]

theorem dominance_by_paths_twoWays : twoWays.InRange ∧ twoWays.Mirrors twoWaysSources ∧ 0 < twoWays.size ∧
    (∃ vs, twoWays.Path 0 3 vs) ∧ (¬∃ vs, twoWays.Path 0 4 vs) ∧ twoWays.Dominates 0 2 3 ∧ ¬twoWays.Dominates 0 1 2 := by
  have hg : twoWays.InRange := by decide
  have hpreds : twoWays.Mirrors twoWaysSources := by decide
  have hroot : 0 < twoWays.size := by decide
  obtain ⟨_, -, -, h⟩ := dominance_by_paths hg hpreds hroot
  have hpath : (twoWays.dominatorsFrom twoWaysSources 0).reaches 3 = true := by cbv
  have hout : (twoWays.dominatorsFrom twoWaysSources 0).reaches 4 = false := by cbv
  have hdominates : (twoWays.dominatorsFrom twoWaysSources 0).dominates 2 3 = true := by cbv
  have hnot : (twoWays.dominatorsFrom twoWaysSources 0).dominates 1 2 = false := by cbv
  refine ⟨hg, hpreds, hroot, (h 0 3).1.mp hpath, fun hpath => ?_, ((h 2 3).2.mp hdominates).2.2, fun hpaths => ?_⟩
  · exact Bool.false_ne_true (hout.symm.trans ((h 0 4).1.mpr hpath))
  · have hyes := (h 1 2).2.mpr ⟨⟨_, .tail .refl (by decide)⟩, ⟨_, .tail .refl (by decide)⟩, hpaths⟩
    exact Bool.false_ne_true (hnot.symm.trans hyes)

/-! ### Immediate dominators -/

section
variable {g : Digraph} {root : Nat} {links : Links}

theorem immediate?_dominatorTree (h : Rising g root links) (hroot : root < g.size) {u v : Nat} :
    (g.dominatorTree root links).immediate? v = some u ↔ v ≠ root ∧ links[v]?.join = some u :=
  join_unrooted h hroot

theorem children_dominatorTree {u : Nat} (hu : u < g.size) :
    (g.dominatorTree root links).children[u]? = some ((g.below root links).successors u) := by
  simp [dominatorTree, below, successors, hu]

theorem nodup_below {u : Nat} (hu : u < g.size) : ((g.below root links).successors u).Nodup := by
  simp only [below, successors, Array.getElem?_map, Array.getElem?_range, if_pos hu, Option.map_some, Option.getD_some]
  exact (List.nodup_reverse.mpr (nodup_postorder g root)).filter _

/-- The vertex that a vertex is linked to is its nearest dominator other than itself. -/
theorem Settled.nearest (hg : g.InRange) (h : Settled g root links) {v u : Nat} (hne : v ≠ root)
    (hu : links[v]?.join = some u) :
    u ≠ v ∧ g.Dominates root u v ∧ ∀ z, z ≠ v → g.Dominates root z v → g.Dominates root z u := by
  refine ⟨fun heq => ?_, h.dominates hg (.of_link hu .refl), fun z hz hdom => ?_⟩
  · have hrises := h.rises v u hu hne
    rw [heq] at hrises
    exact Nat.lt_irrefl _ hrises
  · have habove : Above links u z := ((above_iff hu).mp (h.covers v z ⟨u, hu⟩ hdom)).resolve_left hz
    exact h.dominates hg habove

/-- Every vertex in reach but the root has an immediate dominator, its nearest one, and each vertex lists those that it
dominates immediately. -/
theorem immediate_by_paths (hg : g.InRange) {preds : Array (List Nat)} (hpreds : g.Mirrors preds)
    (hroot : root < g.size) :
    (∃ links, g.linksFrom? preds root = some links) ∧
      (∀ b, (∃ d, (g.dominatorsFrom preds root).immediate? b = some d) ↔ (∃ vs, g.Path root b vs) ∧ b ≠ root) ∧
      (∀ b d, (g.dominatorsFrom preds root).immediate? b = some d → d ≠ b ∧ g.Dominates root d b ∧
        ∀ a, a ≠ b → g.Dominates root a b → g.Dominates root a d) ∧
      ∀ d < g.size, ∃ bs, (g.dominatorsFrom preds root).children[d]? = some bs ∧ bs.Nodup ∧
        ∀ b, b ∈ bs ↔ (g.dominatorsFrom preds root).immediate? b = some d := by
  obtain ⟨links, hlinks, h, heq⟩ := dominatorsFrom_eq hpreds hg hroot
  have himmediate : ∀ {u v}, (g.dominatorTree root links).immediate? v = some u ↔ v ≠ root ∧ links[v]?.join = some u :=
    immediate?_dominatorTree h.toRising hroot
  rw [heq]
  refine ⟨⟨links, hlinks⟩, fun b => ?_, fun b d hd => ?_, fun d hd => ?_⟩
  · simp only [himmediate, ← leads_iff_exists_path, ← mem_postorder hg]
    constructor
    · rintro ⟨d, hne, hlink⟩
      exact ⟨(h.listed b d hlink).1, hne⟩
    · rintro ⟨hb, hne⟩
      obtain ⟨d, hlink⟩ := h.full b hb
      exact ⟨d, hne, hlink⟩
  · obtain ⟨hne, hlink⟩ := himmediate.mp hd
    exact h.nearest hg hne hlink
  · refine ⟨_, children_dominatorTree hd, nodup_below hd, fun b => ?_⟩
    rw [himmediate, mem_below h.toRising hg hroot]

end

theorem immediate_by_paths_twoWays : twoWays.InRange ∧ twoWays.Mirrors twoWaysSources ∧ 0 < twoWays.size ∧
    twoWays.Dominates 0 0 2 ∧ (∀ a, a ≠ 2 → twoWays.Dominates 0 a 2 → twoWays.Dominates 0 a 0) ∧
    (twoWays.dominatorsFrom twoWaysSources 0).children[0]? = some [1, 2] := by
  have hg : twoWays.InRange := by decide
  have hpreds : twoWays.Mirrors twoWaysSources := by decide
  have hroot : 0 < twoWays.size := by decide
  have hlink : (twoWays.dominatorsFrom twoWaysSources 0).immediate? 2 = some 0 := by cbv
  obtain ⟨-, hdominates, hnearest⟩ := (immediate_by_paths hg hpreds hroot).2.2.1 2 0 hlink
  exact ⟨hg, hpreds, hroot, hdominates, hnearest, by cbv⟩

end Digraph
end FlowTree
