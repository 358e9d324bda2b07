import FlowTree.Digraph.Dominators
import FlowTree.Proofs.Digraph.Traversal
import Mathlib.Data.List.Perm.Subperm

/-!
Links that go up. Vertices are ranked by postorder, so the root has the highest rank. As long as every link
leads to a linked vertex of a higher rank, climbing along links ends at the root, and two vertices that climb
towards each other meet where their ways up join (`meet_eq_some`).
-/

namespace FlowTree
namespace Digraph

open Dominators

/-- The place of a vertex in postorder. -/
def rank (g : Digraph) (root v : Nat) : Nat := (g.postorder root).idxOf v

section
variable {g : Digraph} {root : Nat}

theorem root_mem_postorder (g : Digraph) (root : Nat) : root ∈ g.postorder root :=
  List.mem_of_getLast? (getLast?_postorder g root)

theorem rank_injective {u v : Nat} (hu : u ∈ g.postorder root) (h : g.rank root u = g.rank root v) : u = v :=
  (List.idxOf_inj hu).mp h

theorem postorder_lt (hg : g.InRange) (hroot : root < g.size) {v : Nat} (hv : v ∈ g.postorder root) : v < g.size := by
  rcases Relation.ReflTransGen.cases_tail ((mem_postorder hg).mp hv) with rfl | ⟨u, -, hstep⟩
  · exact hroot
  · exact hg u v hstep

theorem rank_lt_size (hg : g.InRange) (hroot : root < g.size) {v : Nat} (hv : v ∈ g.postorder root) :
    g.rank root v < g.size := by
  have hlength : (g.postorder root).length ≤ g.size := by
    have hsub : g.postorder root ⊆ List.range g.size := fun v hv => List.mem_range.mpr (postorder_lt hg hroot hv)
    simpa using ((nodup_postorder g root).subperm hsub).length_le
  exact Nat.lt_of_lt_of_le (List.idxOf_lt_length_iff.mpr hv) hlength

/-- What stands in front of a vertex in reverse postorder has a higher rank, and nothing else does. -/
theorem rank_lt_iff {done rest : List Nat} {v : Nat} (h : (g.postorder root).reverse = done ++ v :: rest) {x : Nat}
    (hx : x ∈ g.postorder root) : g.rank root v < g.rank root x ↔ x ∈ done := by
  have hpo : g.postorder root = rest.reverse ++ v :: done.reverse := by
    have := congrArg List.reverse h
    simpa using this
  have hnodup := nodup_postorder g root
  unfold rank
  rw [hpo] at hx hnodup ⊢
  obtain ⟨hrest, hdone, hdisjoint⟩ := List.nodup_append'.mp hnodup
  have hv : v ∉ rest.reverse := fun hv => hdisjoint hv List.mem_cons_self
  have hrank : (rest.reverse ++ v :: done.reverse).idxOf v = rest.reverse.length := by
    rw [List.idxOf_append_of_notMem hv, List.idxOf_cons_self, Nat.add_zero]
  rw [hrank]
  constructor
  · intro hlt
    rcases List.mem_append.mp hx with hx | hx
    · rw [List.idxOf_append_of_mem hx] at hlt
      exact absurd (List.idxOf_lt_length_iff.mpr hx) (Nat.not_lt_of_gt hlt)
    · rcases List.mem_cons.mp hx with rfl | hx
      · exact absurd (hrank ▸ hlt) (Nat.lt_irrefl _)
      · exact List.mem_reverse.mp hx
  · intro hx
    have hx' : x ∉ rest.reverse := fun hx' => hdisjoint hx' (List.mem_cons_of_mem _ (List.mem_reverse.mpr hx))
    have hne : v ≠ x := fun heq => (List.nodup_cons.mp hdone).1 (heq ▸ List.mem_reverse.mpr hx)
    rw [List.idxOf_append_of_notMem hx', List.idxOf_cons_ne _ hne]
    omega

/-- Reverse postorder begins with the root. -/
theorem reverse_postorder (g : Digraph) (root : Nat) :
    (g.postorder root).reverse = root :: (g.postorder root).reverse.tail := by
  have hhead : (g.postorder root).reverse.head? = some root := by
    rw [List.head?_reverse, getLast?_postorder]
  exact List.eq_cons_of_mem_head? hhead

theorem mem_reverse_tail {v : Nat} : v ∈ (g.postorder root).reverse.tail ↔ v ∈ g.postorder root ∧ v ≠ root := by
  have hnodup := List.nodup_reverse.mpr (nodup_postorder g root)
  have hmem : v ∈ g.postorder root ↔ v ∈ (g.postorder root).reverse := List.mem_reverse.symm
  rw [hmem]
  rw [reverse_postorder] at hnodup ⊢
  rw [List.tail_cons, List.mem_cons]
  constructor
  · exact fun hv => ⟨Or.inr hv, fun heq => (List.nodup_cons.mp hnodup).1 (heq ▸ hv)⟩
  · exact fun hv => hv.1.resolve_left hv.2

/-- What comes next in reverse postorder, when the root has been there, is not the root. -/
theorem ne_root_of_next {done rest : List Nat} {v : Nat} (hdone : root ∈ done)
    (next : (g.postorder root).reverse = done ++ v :: rest) : v ≠ root := by
  have hnodup := List.nodup_reverse.mpr (nodup_postorder g root)
  rw [next, List.nodup_append'] at hnodup
  exact fun heq => hnodup.2.2 hdone (heq ▸ List.mem_cons_self)

/-- The root has the highest rank. -/
theorem rank_lt_root {v : Nat} (hv : v ∈ g.postorder root) (hne : v ≠ root) : g.rank root v < g.rank root root := by
  obtain ⟨done, rest, hsplit⟩ := List.append_of_mem (mem_reverse_tail.mpr ⟨hv, hne⟩)
  have h : (g.postorder root).reverse = (root :: done) ++ v :: rest := by rw [reverse_postorder, hsplit]; rfl
  exact (rank_lt_iff h (root_mem_postorder g root)).mpr List.mem_cons_self

/-- Every vertex in reach but the root has a predecessor of a higher rank. -/
theorem exists_parent {v : Nat} (hv : v ∈ g.postorder root) (hne : v ≠ root) :
    ∃ u ∈ g.postorder root, v ∈ g.successors u ∧ g.rank root v < g.rank root u := by
  obtain ⟨u, hstep, hsub⟩ := exists_later hv hne
  have hu : u ∈ g.postorder root := hsub.subset (by simp)
  refine ⟨u, hu, hstep, ?_⟩
  obtain ⟨done, rest, hsplit⟩ := List.append_of_mem (List.mem_reverse.mpr hv)
  rw [rank_lt_iff hsplit hu]
  have hnodup : (done ++ v :: rest).Nodup := hsplit ▸ List.nodup_reverse.mpr (nodup_postorder g root)
  have hv' : v ∉ rest := (List.nodup_cons.mp (List.nodup_append'.mp hnodup).2.1).1
  have hsub' : [u, v].Sublist (done ++ v :: rest) := by
    have := hsub.reverse
    rwa [hsplit] at this
  obtain ⟨front, back, hparts, hfront, hback⟩ := List.sublist_append_iff.mp hsub'
  cases front with
  | cons x front =>
    obtain ⟨rfl, -⟩ := List.cons.inj hparts
    exact hfront.subset List.mem_cons_self
  | nil =>
    -- Then the vertex would stand behind itself.
    cases hparts
    exact absurd ((List.sublist_cons_iff.mp hback).elim (fun h => h.subset (by simp)) fun ⟨r, hr, h⟩ => by
      cases hr
      exact h.subset (by simp)) hv'

end

/-! ### Climbing -/

/-- The vertex has a link. -/
def HasLink (links : Links) (v : Nat) : Prop := ∃ u, links[v]?.join = some u

/-- Climbing along links leads from the one vertex to the other. -/
def Above (links : Links) : Nat → Nat → Prop := Relation.ReflTransGen fun v u => links[v]?.join = some u

/-- Links that go up to linked vertices, as far as there are any. The root is linked to itself. -/
structure Rising (g : Digraph) (root : Nat) (links : Links) : Prop where
  size_eq : links.size = g.size
  root_link : links[root]?.join = some root
  listed : ∀ v u, links[v]?.join = some u → v ∈ g.postorder root ∧ HasLink links u
  rises : ∀ v u, links[v]?.join = some u → v ≠ root → g.rank root v < g.rank root u

section
variable {g : Digraph} {root : Nat} {links : Links}

theorem Above.of_link {v u z : Nat} (h : links[v]?.join = some u) (hz : Above links u z) : Above links v z := .head h hz

/-- A vertex above another is that vertex or above the one that it is linked to. -/
theorem above_iff {v u z : Nat} (h : links[v]?.join = some u) : Above links v z ↔ z = v ∨ Above links u z := by
  constructor
  · intro hz
    rcases Relation.ReflTransGen.cases_head hz with rfl | ⟨u', hu', hz⟩
    · exact Or.inl rfl
    · rw [h] at hu'
      cases hu'
      exact Or.inr hz
  · rintro (rfl | hz)
    · exact .refl
    · exact .of_link h hz

namespace Rising

theorem mem (h : Rising g root links) {v : Nat} (hv : HasLink links v) : v ∈ g.postorder root := by
  obtain ⟨u, hu⟩ := hv
  exact (h.listed v u hu).1

/-- The root is linked to itself. -/
theorem eq_of_link_root (h : Rising g root links) {y : Nat} (hlink : links[root]?.join = some y) : y = root :=
  Option.some.inj (hlink.symm.trans h.root_link)

theorem rank_le (h : Rising g root links) {v z : Nat} (hz : Above links v z) : g.rank root v ≤ g.rank root z := by
  induction hz with
  | refl => exact Nat.le_refl _
  | @tail x y _ hlink ih =>
    by_cases hroot : x = root
    · subst hroot
      exact h.eq_of_link_root hlink ▸ ih
    · exact Nat.le_trans ih (Nat.le_of_lt (h.rises x y hlink hroot))

theorem rank_le_root (h : Rising g root links) {v : Nat} (hv : HasLink links v) : g.rank root v ≤ g.rank root root := by
  by_cases hroot : v = root
  · exact Nat.le_of_eq (congrArg _ hroot)
  · exact Nat.le_of_lt (rank_lt_root (h.mem hv) hroot)

/-- Of two vertices, the one of the lower rank is below a third one just when the vertex it is linked to is. -/
theorem above_both_iff (h : Rising g root links) {u u' v z : Nat} (hlink : links[u]?.join = some u')
    (hlt : g.rank root u < g.rank root v) : Above links u' z ∧ Above links v z ↔ Above links u z ∧ Above links v z := by
  constructor
  · exact fun ⟨hu, hv⟩ => ⟨.of_link hlink hu, hv⟩
  · rintro ⟨hu, hv⟩
    rcases (above_iff hlink).mp hu with rfl | hu
    · exact absurd (h.rank_le hv) (Nat.not_le.mpr hlt)
    · exact ⟨hu, hv⟩

end Rising

/-- The postorder numbers that climbing looks at. -/
def numbers (g : Digraph) (root : Nat) : Array Nat := (Array.range g.size).map (g.postorder root).idxOf

theorem numbers_getElem? (hg : g.InRange) (hroot : root < g.size) {v : Nat} (hv : v ∈ g.postorder root) :
    (g.numbers root)[v]? = some (g.rank root v) := by
  simp [numbers, rank, postorder_lt hg hroot hv]

/-- Two linked vertices meet where their ways up join. -/
theorem meet_eq_some (hg : g.InRange) (hroot : root < g.size) (h : Rising g root links) (steps : Nat) {u v : Nat}
    (hu : HasLink links u) (hv : HasLink links v)
    (hsteps : (g.rank root root - g.rank root u) + (g.rank root root - g.rank root v) < steps) :
    ∃ w, meet (g.numbers root) links steps u v = some w ∧ HasLink links w ∧
      ∀ z, Above links w z ↔ Above links u z ∧ Above links v z := by
  induction steps generalizing u v with
  | zero => exact absurd hsteps (Nat.not_lt_zero _)
  | succ steps ih =>
    unfold meet
    by_cases heq : u = v
    · subst heq
      exact ⟨u, if_pos rfl, hu, fun z => (and_self_iff).symm⟩
    have hne : g.rank root u ≠ g.rank root v := fun hrank => heq (rank_injective (h.mem hu) hrank)
    obtain ⟨u', hu'⟩ := hu
    obtain ⟨v', hv'⟩ := hv
    simp only [if_neg heq, numbers_getElem? hg hroot (h.mem ⟨u', hu'⟩), numbers_getElem? hg hroot (h.mem ⟨v', hv'⟩),
      Option.bind_eq_bind, Option.bind_some, hu', hv']
    have hule := h.rank_le_root ⟨u', hu'⟩
    have hvle := h.rank_le_root ⟨v', hv'⟩
    -- The one of lower rank goes up: it cannot be above the other, since links only rise.
    split
    · rename_i hlt
      have hnotroot : u ≠ root := fun hroot' => by subst hroot'; omega
      have hrises := h.rises u u' hu' hnotroot
      obtain ⟨w, hw, hlinked, hjoin⟩ := ih (h.listed u u' hu').2 ⟨v', hv'⟩ (by omega)
      exact ⟨w, hw, hlinked, fun z => (hjoin z).trans (h.above_both_iff hu' hlt)⟩
    · rename_i hge
      have hlt : g.rank root v < g.rank root u := by omega
      have hnotroot : v ≠ root := fun hroot' => by subst hroot'; omega
      have hrises := h.rises v v' hv' hnotroot
      obtain ⟨w, hw, hlinked, hjoin⟩ := ih ⟨u', hu'⟩ (h.listed v v' hv').2 (by omega)
      refine ⟨w, hw, hlinked, fun z => (hjoin z).trans ?_⟩
      rw [and_comm, h.above_both_iff hv' hlt, and_comm]

/-- The vertex, if there is one, is where the ways up from the linked ones of some vertices join. -/
structure Joins (links : Links) (vertices : List Nat) (d? : Option Nat) : Prop where
  unlinked : d? = none → ∀ p ∈ vertices, ¬HasLink links p
  joined : ∀ d, d? = some d → HasLink links d ∧ ∀ z, Above links d z ↔ ∀ p ∈ vertices, HasLink links p → Above links p z

theorem hasLink_iff {p : Nat} {link? : Option Nat} (hp : links[p]? = some link?) :
    HasLink links p ↔ link?.isSome = true := by
  simp [HasLink, hp, Option.isSome_iff_exists]

theorem Joins.skip {done : List Nat} {d? : Option Nat} (hd : Joins links done d?) {p : Nat} (hp : ¬HasLink links p) :
    Joins links (done ++ [p]) d? := by
  refine ⟨fun hnone => ?_, fun d hd' => ?_⟩
  · simpa [or_imp, forall_and, hp] using hd.unlinked hnone
  · obtain ⟨hlinked, hjoin⟩ := hd.joined d hd'
    refine ⟨hlinked, fun z => (hjoin z).trans ?_⟩
    simp [or_imp, forall_and, hp]

theorem meetNext_eq_some (hg : g.InRange) (hroot : root < g.size) (h : Rising g root links) {done : List Nat}
    {d? : Option Nat} (hd : Joins links done d?) {p : Nat} (hp : p < g.size) :
    ∃ d'?, meetNext (g.numbers root) links d? p = some d'? ∧ Joins links (done ++ [p]) d'? := by
  obtain ⟨link?, hget⟩ : ∃ link?, links[p]? = some link? := ⟨_, Array.getElem?_eq_getElem (h.size_eq ▸ hp)⟩
  have hlink := hasLink_iff hget
  unfold meetNext
  simp only [hget, Option.bind_eq_bind, Option.bind_some]
  cases link? with
  | none => exact ⟨d?, rfl, hd.skip (by simp [hlink])⟩
  | some u =>
    have hp' : HasLink links p := hlink.mpr rfl
    cases d? with
    | none =>
      refine ⟨some p, rfl, by simp, fun d hd' => ?_⟩
      cases hd'
      refine ⟨hp', fun z => ⟨fun hz q hq hq' => ?_, fun hall => hall p (by simp) hp'⟩⟩
      rcases List.mem_append.mp hq with hq | hq
      · exact absurd hq' (hd.unlinked rfl q hq)
      · exact List.mem_singleton.mp hq ▸ hz
    | some d =>
      obtain ⟨hd', hjoin⟩ := hd.joined d rfl
      have hsize := rank_lt_size hg hroot (root_mem_postorder g root)
      obtain ⟨w, hw, hlinked, hmeet⟩ := meet_eq_some hg hroot h (2 * links.size) hp' hd' (by rw [h.size_eq]; omega)
      refine ⟨some w, by simp [hw], by simp, fun d hd => ?_⟩
      cases hd
      refine ⟨hlinked, fun z => ?_⟩
      rw [hmeet, hjoin]
      simp [or_imp, forall_and, hp', and_comm]

/-- The linked ones of some vertices meet where their ways up join. -/
theorem meetAll_eq_some (hg : g.InRange) (hroot : root < g.size) (h : Rising g root links) {preds : List Nat}
    (hpreds : ∀ p ∈ preds, p < g.size) : ∃ d?, meetAll (g.numbers root) links preds = some d? ∧ Joins links preds d? := by
  have key : ∀ (rest done : List Nat) (d? : Option Nat), (∀ p ∈ rest, p < g.size) → Joins links done d? →
      ∃ d'?, rest.foldlM (meetNext (g.numbers root) links) d? = some d'? ∧ Joins links (done ++ rest) d'? := by
    intro rest
    induction rest with
    | nil => exact fun done d? _ hd => ⟨d?, rfl, by simpa using hd⟩
    | cons p rest ih =>
      intro done d? hrest hd
      obtain ⟨hp, hrest⟩ := List.forall_mem_cons.mp hrest
      obtain ⟨next?, hnext, hd'⟩ := meetNext_eq_some hg hroot h hd hp
      obtain ⟨last?, hlast, hd''⟩ := ih (done ++ [p]) next? hrest hd'
      exact ⟨last?, by simp [List.foldlM_cons, hnext, hlast], by simpa using hd''⟩
  exact key preds [] none hpreds ⟨by simp, by simp⟩

end

end Digraph
end FlowTree
