import FlowTree.Proofs.Digraph.Links
import FlowTree.Proofs.Digraph.Paths
import Mathlib.Algebra.Order.BigOperators.Group.Finset

/-!
Linking vertices until nothing changes. A pass links the vertices in reverse postorder to where the ways up from
their predecessors join. Within a pass, links never go down (`Improves`): a vertex keeps a way up that its new
link is on, because the predecessor that it was entered from has already been linked in this pass, and what is
above that predecessor is above every vertex on the way to it. So the ranks of the links add up to more with every
pass that changes something, and the passes come to an end.

Links that a pass does not change are not yet those to dominators: in a circle of vertices they may be too high. But
no link ever passes over a dominator (`Refining.covers`), so at the end none is too high.
-/

namespace FlowTree
namespace Digraph

open Dominators

/-- A predecessor of a higher rank for each vertex in reach but the root. -/
structure Parents (g : Digraph) (root : Nat) (parent : Nat → Nat) : Prop where
  mem : ∀ v ∈ g.postorder root, v ≠ root → parent v ∈ g.postorder root
  edge : ∀ v ∈ g.postorder root, v ≠ root → v ∈ g.successors (parent v)
  rises : ∀ v ∈ g.postorder root, v ≠ root → g.rank root v < g.rank root (parent v)

theorem exists_parents (g : Digraph) (root : Nat) : ∃ parent, Parents g root parent := by
  have hall : ∀ v, ∃ u, v ∈ g.postorder root → v ≠ root →
      u ∈ g.postorder root ∧ v ∈ g.successors u ∧ g.rank root v < g.rank root u := fun v => by
    by_cases hv : v ∈ g.postorder root ∧ v ≠ root
    · obtain ⟨u, hu, h⟩ := exists_parent hv.1 hv.2
      exact ⟨u, fun _ _ => ⟨hu, h⟩⟩
    · exact ⟨0, fun h h' => absurd ⟨h, h'⟩ hv⟩
  choose parent hparent using hall
  exact ⟨parent, fun v hv hne => (hparent v hv hne).1, fun v hv hne => (hparent v hv hne).2.1,
    fun v hv hne => (hparent v hv hne).2.2⟩

/-- Going from parent to parent leads from the one vertex to the other. -/
def Over (g : Digraph) (root : Nat) (parent : Nat → Nat) : Nat → Nat → Prop :=
  Relation.ReflTransGen fun v u => v ∈ g.postorder root ∧ v ≠ root ∧ u = parent v

/-- Links that go up, to ancestors, and as high as the predecessors allow at least. They pass over no dominator. -/
structure Refining (g : Digraph) (root : Nat) (parent : Nat → Nat) (links : Links) : Prop extends
    Rising g root links where
  covers : ∀ v z, HasLink links v → g.Dominates root z v → Above links v z
  lineage : ∀ v u, links[v]?.join = some u → v ≠ root → Over g root parent (parent v) u
  tight : ∀ v u, links[v]?.join = some u → v ≠ root → ∀ z,
    (∀ p, v ∈ g.successors p → HasLink links p → Above links p z) → g.rank root u ≤ g.rank root z

/-- Links in the middle of a pass, when the given vertices have been linked: what is above one of them is above
each of its ancestors, unless it is below that. -/
structure Passing (g : Digraph) (root : Nat) (parent : Nat → Nat) (done : List Nat) (links : Links) : Prop extends
    Refining g root parent links where
  linked : ∀ v ∈ done, HasLink links v
  straight : ∀ v ∈ done, ∀ u, Over g root parent v u → ∀ z, Above links v z → g.rank root u ≤ g.rank root z →
    Above links u z

/-- Links go nowhere lower than before. -/
def Improves (g : Digraph) (root : Nat) (links links' : Links) : Prop :=
  ∀ v u : Nat, links[v]?.join = some u → ∃ u', links'[v]?.join = some u' ∧ g.rank root u ≤ g.rank root u'

section
variable {g : Digraph} {root : Nat} {parent : Nat → Nat} {links : Links} {v w : Nat}

theorem Over.rank_le (hp : Parents g root parent) {u : Nat} (h : Over g root parent v u) :
    g.rank root v ≤ g.rank root u := by
  induction h with
  | refl => exact Nat.le_refl _
  | tail _ hstep ih =>
    obtain ⟨hmem, hne, rfl⟩ := hstep
    exact Nat.le_trans ih (Nat.le_of_lt (hp.rises _ hmem hne))

/-- What is above a linked vertex is one of its ancestors. -/
theorem Refining.over (h : Refining g root parent links) {z : Nat} (hz : Above links v z) :
    Over g root parent v z := by
  induction hz with
  | refl => exact .refl
  | @tail x y _ hlink ih =>
    by_cases hroot : x = root
    · subst hroot
      exact h.eq_of_link_root hlink ▸ ih
    · exact (ih.tail ⟨(h.listed x y hlink).1, hroot, rfl⟩).trans (h.lineage x y hlink hroot)

section Relinked
variable (h : Rising g root links) (hv : v ∈ g.postorder root) (hne : v ≠ root) (hlt : v < g.size)

include h hlt in
theorem join_set (x : Nat) : (links.setIfInBounds v (some w))[x]?.join = if v = x then some w else links[x]?.join := by
  have hlt' : v < links.size := h.size_eq ▸ hlt
  rw [Array.getElem?_setIfInBounds]
  split <;> rfl

include h hlt in
theorem hasLink_set {x : Nat} : HasLink (links.setIfInBounds v (some w)) x ↔ x = v ∨ HasLink links x := by
  unfold HasLink
  rw [join_set h hlt]
  split
  · simp_all
  · simp_all [eq_comm]

include h hlt in
/-- When the new link of a vertex is above its old one, nothing gets above a vertex that was not there. -/
theorem above_of_above_set (hw : HasLink links w) (hold : ∀ b, links[v]?.join = some b → Above links b w) {x z : Nat}
    (hx : HasLink links x) (hz : Above (links.setIfInBounds v (some w)) x z) : Above links x z := by
  have key : Above links x z ∧ HasLink links z := by
    induction hz with
    | refl => exact ⟨.refl, hx⟩
    | @tail y y' _ hlink ih =>
      rw [join_set h hlt] at hlink
      split at hlink
      · rename_i heq
        subst heq
        cases hlink
        obtain ⟨b, hb⟩ := ih.2
        exact ⟨(ih.1.tail hb).trans (hold b hb), hw⟩
      · exact ⟨ih.1.tail hlink, (h.listed _ _ hlink).2⟩
  exact key.1

include h hlt in
/-- What is above a vertex of a higher rank stays the same. -/
theorem above_set_of_above {x z : Nat} (hx : g.rank root v < g.rank root x) (hz : Above links x z) :
    Above (links.setIfInBounds v (some w)) x z := by
  induction hz with
  | refl => exact .refl
  | @tail y y' hy hlink ih =>
    have hle := h.rank_le hy
    refine ih.tail ?_
    rw [join_set h hlt, if_neg fun heq => ?_]
    · exact hlink
    · subst heq
      omega

end Relinked

/-- What dominates a vertex and is higher than one of its ancestors dominates that ancestor. -/
theorem Over.dominates (hp : Parents g root parent) {u z : Nat} (h : Over g root parent v u)
    (hz : g.Dominates root z v) (hrank : g.rank root u < g.rank root z) : g.Dominates root z u := by
  induction h using Relation.ReflTransGen.head_induction_on with
  | refl => exact hz
  | head hstep hrest ih =>
    obtain ⟨hmem, hne, rfl⟩ := hstep
    have hle := Over.rank_le hp (.head ⟨hmem, hne, rfl⟩ hrest)
    exact ih (hz.of_edge (fun heq => by subst heq; omega) (hp.edge _ hmem hne))

/-- The way up from one vertex to another, one link at a time: each link leads to the end of the way or to a vertex
that the end dominates as well. -/
theorem Refining.dominates_link (hp : Parents g root parent) (h : Refining g root parent links) {u z : Nat}
    (hu : links[v]?.join = some u) (hz : Above links u z) (hdom : g.Dominates root z v) : g.Dominates root z u := by
  by_cases heq : u = z
  · exact heq ▸ Dominates.refl g root u
  · have hne : v ≠ root := fun hroot => by
      subst hroot
      rw [h.root_link] at hu
      cases hu
      exact heq hdom.eq_root.symm
    have hlt : g.rank root u < g.rank root z :=
      Nat.lt_of_le_of_ne (h.rank_le hz) fun hrank => heq (rank_injective (h.mem (h.listed v u hu).2) hrank)
    exact Over.dominates hp (.head ⟨(h.listed v u hu).1, hne, rfl⟩ (h.lineage v u hu hne)) hdom hlt

/-- A new link that passes over no dominator of its vertex leaves every dominator where it was on the way up. -/
theorem Refining.covers_set (hp : Parents g root parent) (h : Refining g root parent links) (hlt : v < g.size)
    (hw : g.rank root v < g.rank root w) (hnew : ∀ z, z ≠ v → g.Dominates root z v → Above links w z) {x z : Nat}
    (hx : HasLink (links.setIfInBounds v (some w)) x) (hz : g.Dominates root z x) :
    Above (links.setIfInBounds v (some w)) x z := by
  have hfrom : ∀ {z}, g.Dominates root z v → Above (links.setIfInBounds v (some w)) v z := fun {z} hz => by
    by_cases heq : z = v
    · exact heq ▸ .refl
    · refine .of_link ?_ (above_set_of_above h.toRising hlt hw (hnew z heq hz))
      rw [join_set h.toRising hlt, if_pos rfl]
  by_cases heq : x = v
  · subst heq
    exact hfrom hz
  · have hway := h.covers x z (((hasLink_set h.toRising hlt).mp hx).resolve_left heq) hz
    clear heq hx
    -- Down to the vertex with the new link the way up is the old one.
    induction hway using Relation.ReflTransGen.head_induction_on with
    | refl => exact .refl
    | @head x y hlink hrest ih =>
      by_cases heq : x = v
      · subst heq
        exact hfrom hz
      · refine .of_link ?_ (ih (h.dominates_link hp hlink hrest hz))
        rw [join_set h.toRising hlt, if_neg (Ne.symm heq)]
        exact hlink

/-- The lists hold the predecessors of each vertex, in any order and any number of times. -/
structure Mirrors (g : Digraph) (preds : Array (List Nat)) : Prop where
  size_eq : preds.size = g.size
  mem_iff : ∀ v < g.size, ∀ u, u ∈ preds[v]?.getD [] ↔ v ∈ g.successors u

theorem mem_predecessors {u : Nat} : u ∈ g.predecessors v ↔ v ∈ g.successors u := by
  simp only [predecessors, List.mem_flatMap, List.mem_range, List.mem_map, List.mem_filter, decide_eq_true_eq]
  constructor
  · rintro ⟨u, -, x, ⟨hx, rfl⟩, rfl⟩
    exact hx
  · intro hv
    refine ⟨u, ?_, v, ⟨hv, rfl⟩, rfl⟩
    by_contra hu
    simp [successors, Array.getElem?_eq_none (Nat.le_of_not_lt hu)] at hv

theorem mirrors_sources (g : Digraph) : g.Mirrors g.sources where
  size_eq := by simp [sources]
  mem_iff v hv u := by simpa [sources, hv] using mem_predecessors

theorem lt_of_mem_successors {u : Nat} (h : v ∈ g.successors u) : u < g.size := by
  by_contra hu
  simp [successors, Array.getElem?_eq_none (Nat.le_of_not_lt hu)] at h

theorem Mirrors.getElem? {preds : Array (List Nat)} (h : g.Mirrors preds) (hv : v < g.size) :
    preds[v]? = some (preds[v]?.getD []) := by
  simp [h.size_eq, hv]

theorem Mirrors.lt {preds : Array (List Nat)} (h : g.Mirrors preds) (hv : v < g.size) :
    ∀ u ∈ preds[v]?.getD [], u < g.size :=
  fun u hu => lt_of_mem_successors ((h.mem_iff v hv u).mp hu)

/-! ### Linking the next vertex of a pass -/

/-- The ways up from the predecessors of `v`, which comes next in a pass, join at `w`. -/
structure NextLink (g : Digraph) (root : Nat) (parent : Nat → Nat) (done : List Nat) (links : Links) (v w : Nat) :
    Prop where
  listed : v ∈ g.postorder root
  ne_root : v ≠ root
  parent_done : parent v ∈ done
  linked : HasLink links w
  joins : ∀ z, Above links w z ↔ ∀ p, v ∈ g.successors p → HasLink links p → Above links p z

section NextLink
variable {done : List Nat} (hp : Parents g root parent) (h : Passing g root parent done links)
  (hn : NextLink g root parent done links v w) (hlt : v < g.size)

include hn in
theorem NextLink.above_of_edge {p : Nat} (edge : v ∈ g.successors p) (hlink : HasLink links p) : Above links p w :=
  (hn.joins w).mp .refl p edge hlink

include hp h hn

theorem NextLink.parent_above : Above links (parent v) w :=
  hn.above_of_edge (hp.edge v hn.listed hn.ne_root) (h.linked _ hn.parent_done)

theorem NextLink.rises : g.rank root v < g.rank root w :=
  Nat.lt_of_lt_of_le (hp.rises v hn.listed hn.ne_root) (h.rank_le (hn.parent_above hp h))

/-- The old link was no higher, and since the parent has been linked in this pass, the new link is above it. -/
theorem NextLink.old {b : Nat} (hb : links[v]?.join = some b) : g.rank root b ≤ g.rank root w ∧ Above links b w := by
  have hle := h.tight v b hb hn.ne_root w fun _ => hn.above_of_edge
  exact ⟨hle, h.straight _ hn.parent_done b (h.lineage v b hb hn.ne_root) w (hn.parent_above hp h) hle⟩

include hlt

theorem NextLink.above_of_above {x z : Nat} (hx : HasLink links x) (hz : Above (links.setIfInBounds v (some w)) x z) :
    Above links x z :=
  above_of_above_set h.toRising hlt hn.linked (fun _ hb => (hn.old hp h hb).2) hx hz

theorem NextLink.rising : Rising g root (links.setIfInBounds v (some w)) where
  size_eq := by simpa using h.size_eq
  root_link := by
    rw [join_set h.toRising hlt, if_neg hn.ne_root]
    exact h.root_link
  listed x u hu := by
    rw [join_set h.toRising hlt] at hu
    rw [hasLink_set h.toRising hlt]
    split at hu
    · rename_i heq
      cases hu
      exact ⟨heq ▸ hn.listed, Or.inr hn.linked⟩
    · exact ⟨(h.listed x u hu).1, Or.inr (h.listed x u hu).2⟩
  rises x u hu hx := by
    rw [join_set h.toRising hlt] at hu
    split at hu
    · rename_i heq
      cases hu
      exact heq ▸ hn.rises hp h
    · exact h.rises x u hu hx

theorem NextLink.refining : Refining g root parent (links.setIfInBounds v (some w)) where
  toRising := hn.rising hp h hlt
  covers x z hx hz := by
    refine h.covers_set hp hlt (hn.rises hp h) (fun z hzv hdom => (hn.joins z).mpr fun p edge hlink => ?_) hx hz
    exact h.covers p z hlink (hdom.of_edge hzv edge)
  lineage x u hu hx := by
    rw [join_set h.toRising hlt] at hu
    split at hu
    · rename_i heq
      cases hu
      exact heq ▸ h.over (hn.parent_above hp h)
    · exact h.lineage x u hu hx
  tight x u hu hx z hz := by
    -- What is above all predecessors now was so before.
    have hz' : ∀ p, x ∈ g.successors p → HasLink links p → Above links p z := fun p edge hlink =>
      hn.above_of_above hp h hlt hlink (hz p edge ((hasLink_set h.toRising hlt).mpr (Or.inr hlink)))
    rw [join_set h.toRising hlt] at hu
    split at hu
    · rename_i heq
      subst heq
      cases hu
      exact h.rank_le ((hn.joins z).mpr hz')
    · exact h.tight x u hu hx z hz'

/-- What is above the vertex now was above its parent, so it is above the ancestors that are not higher. -/
theorem NextLink.straight {u z : Nat} (hu : Over g root parent v u) (hz : Above (links.setIfInBounds v (some w)) v z)
    (hrank : g.rank root u ≤ g.rank root z) : Above (links.setIfInBounds v (some w)) u z := by
  rcases Relation.ReflTransGen.cases_head hu with rfl | ⟨_, ⟨-, -, rfl⟩, hu⟩
  · exact hz
  · have hurank := Nat.lt_of_lt_of_le (hp.rises v hn.listed hn.ne_root) (Over.rank_le hp hu)
    have hlink : (links.setIfInBounds v (some w))[v]?.join = some w := by rw [join_set h.toRising hlt, if_pos rfl]
    rcases (above_iff hlink).mp hz with rfl | hz
    · omega
    · have hz' := (hn.parent_above hp h).trans (hn.above_of_above hp h hlt hn.linked hz)
      exact above_set_of_above h.toRising hlt hurank (h.straight _ hn.parent_done u hu z hz' hrank)

theorem NextLink.passing (hdone : ∀ x ∈ done, g.rank root v < g.rank root x) :
    Passing g root parent (done ++ [v]) (links.setIfInBounds v (some w)) where
  toRefining := hn.refining hp h hlt
  linked x hx := by
    rw [hasLink_set h.toRising hlt]
    rcases List.mem_append.mp hx with hx | hx
    · exact Or.inr (h.linked x hx)
    · exact Or.inl (List.mem_singleton.mp hx)
  straight x hx u hu z hz hrank := by
    rcases List.mem_append.mp hx with hx | hx
    · have hz' := hn.above_of_above hp h hlt (h.linked x hx) hz
      have hurank := Nat.lt_of_lt_of_le (hdone x hx) (hu.rank_le hp)
      exact above_set_of_above h.toRising hlt hurank (h.straight x hx u hu z hz' hrank)
    · rw [List.mem_singleton.mp hx] at hu hz
      exact hn.straight hp h hlt hu hz hrank

theorem NextLink.improves : Improves g root links (links.setIfInBounds v (some w)) := by
  intro x u hu
  rw [join_set h.toRising hlt]
  split
  · rename_i heq
    subst heq
    exact ⟨w, rfl, (hn.old hp h hu).1⟩
  · exact ⟨u, hu, Nat.le_refl _⟩

end NextLink

theorem relink_eq_some (hg : g.InRange) (hroot : root < g.size) (hp : Parents g root parent) {preds : Array (List Nat)}
    (hpreds : g.Mirrors preds) {done rest : List Nat} (hsplit : (g.postorder root).reverse = done ++ v :: rest)
    (hne : v ≠ root) (h : Passing g root parent done links) :
    ∃ links', relink (g.numbers root) preds links v = some links' ∧
      Passing g root parent (done ++ [v]) links' ∧ Improves g root links links' := by
  have hv : v ∈ g.postorder root := by
    rw [← List.mem_reverse, hsplit]
    simp
  have hlt := postorder_lt hg hroot hv
  have hfresh : ∀ {x}, x ∈ g.postorder root → (g.rank root v < g.rank root x ↔ x ∈ done) := rank_lt_iff hsplit
  have hmem : ∀ u, u ∈ preds[v]?.getD [] ↔ v ∈ g.successors u := hpreds.mem_iff v hlt
  obtain ⟨d?, hmeet, hjoins⟩ := meetAll_eq_some hg hroot h.toRising (hpreds.lt hlt)
  have hparent : parent v ∈ done := (hfresh (hp.mem v hv hne)).mp (hp.rises v hv hne)
  -- The parent has been linked in this pass, so there is a new link.
  obtain ⟨w, rfl⟩ : ∃ w, d? = some w := by
    cases d? with
    | none => exact absurd (h.linked _ hparent) (hjoins.unlinked rfl _ ((hmem _).mpr (hp.edge v hv hne)))
    | some w => exact ⟨w, rfl⟩
  obtain ⟨hw, hjoin⟩ := hjoins.joined w rfl
  have hn : NextLink g root parent done links v w := ⟨hv, hne, hparent, hw, fun z => by simpa only [hmem] using hjoin z⟩
  refine ⟨links.setIfInBounds v (some w), ?_, hn.passing hp h hlt fun x hx => ?_, hn.improves hp h hlt⟩
  · rw [relink, hpreds.getElem? hlt]
    simp [hmeet]
  · exact (hfresh (h.mem (h.linked x hx))).mpr hx

/-! ### Passes -/

/-- One pass over the vertices in reach. -/
def round (g : Digraph) (preds : Array (List Nat)) (root : Nat) : Links → Option Links :=
  pass (g.numbers root) preds (g.postorder root).reverse.tail

theorem Improves.refl (links : Links) : Improves g root links links := fun _ u hu => ⟨u, hu, Nat.le_refl _⟩

theorem Improves.trans {links' links'' : Links} (h : Improves g root links links') (h' : Improves g root links' links'') :
    Improves g root links links'' := by
  intro v u hu
  obtain ⟨u', hu', hle⟩ := h v u hu
  obtain ⟨u'', hu'', hle'⟩ := h' v u' hu'
  exact ⟨u'', hu'', Nat.le_trans hle hle'⟩

/-- At the start of a pass only the root counts as linked in it. -/
theorem Refining.passing (h : Refining g root parent links) : Passing g root parent [root] links where
  toRefining := h
  linked v hv := List.mem_singleton.mp hv ▸ ⟨root, h.root_link⟩
  straight v hv u hu z hz _ := by
    obtain rfl := List.mem_singleton.mp hv
    rcases Relation.ReflTransGen.cases_head hu with rfl | ⟨_, ⟨-, hne, -⟩, -⟩
    · exact hz
    · exact absurd rfl hne

section
variable {preds : Array (List Nat)} (hpreds : g.Mirrors preds)

include hpreds in
/-- A pass links every vertex in reach. -/
theorem round_eq_some (hg : g.InRange) (hroot : root < g.size) (hp : Parents g root parent)
    (h : Refining g root parent links) : ∃ links', g.round preds root links = some links' ∧
      Refining g root parent links' ∧ (∀ v ∈ g.postorder root, HasLink links' v) ∧ Improves g root links links' := by
  have key : ∀ (rest done : List Nat) (links : Links), (g.postorder root).reverse = done ++ rest → root ∈ done →
      Passing g root parent done links → ∃ links', rest.foldlM (relink (g.numbers root) preds) links = some links' ∧
        Passing g root parent (done ++ rest) links' ∧ Improves g root links links' := by
    intro rest
    induction rest with
    | nil => exact fun done links _ _ h => ⟨links, rfl, by simpa using h, .refl links⟩
    | cons v rest ih =>
      intro done links hsplit hdone h
      obtain ⟨next, hnext, h', himproves⟩ := relink_eq_some hg hroot hp hpreds hsplit (ne_root_of_next hdone hsplit) h
      obtain ⟨last, hlast, h'', himproves'⟩ := ih (done ++ [v]) next (by simp [hsplit]) (by simp [hdone]) h'
      exact ⟨last, by simp [List.foldlM_cons, hnext, hlast], by simpa using h'', himproves.trans himproves'⟩
  obtain ⟨links', hpass, h', himproves⟩ := key (g.postorder root).reverse.tail [root] links (reverse_postorder g root)
    (by simp) h.passing
  refine ⟨links', hpass, h'.toRefining, fun v hv => h'.linked v ?_, himproves⟩
  rw [List.singleton_append, ← reverse_postorder]
  exact List.mem_reverse.mpr hv

/-- Linking a vertex anew changes no other link. -/
theorem relink_getElem? {number : Array Nat} {links' : Links} (h : relink number preds links v = some links') {x : Nat}
    (hx : x ≠ v) : links'[x]? = links[x]? := by
  simp only [relink, Option.bind_eq_bind, Option.bind_eq_some_iff, Option.some.injEq] at h
  obtain ⟨_, -, _, -, rfl⟩ := h
  exact Array.getElem?_setIfInBounds_ne (Ne.symm hx)

theorem pass_cons {number : Array Nat} {order : List Nat} {links' : Links} :
    pass number preds (v :: order) links = some links' ↔
      ∃ next, relink number preds links v = some next ∧ pass number preds order next = some links' := by
  unfold Dominators.pass
  rw [List.foldlM_cons, Option.bind_eq_bind, Option.bind_eq_some_iff]

theorem pass_getElem? {number : Array Nat} {order : List Nat} {links' : Links}
    (h : pass number preds order links = some links') {x : Nat} (hx : x ∉ order) : links'[x]? = links[x]? := by
  induction order generalizing links with
  | nil =>
    cases h
    rfl
  | cons v order ih =>
    obtain ⟨next, hnext, h⟩ := pass_cons.mp h
    rw [List.mem_cons, not_or] at hx
    obtain ⟨hxv, hx⟩ := hx
    exact (ih h hx).trans (relink_getElem? hnext hxv)

/-- A pass that changes nothing in the end changes nothing on the way. -/
theorem relink_of_pass {number : Array Nat} {order : List Nat} (hnodup : order.Nodup)
    (h : pass number preds order links = some links) : ∀ v ∈ order, relink number preds links v = some links := by
  induction order with
  | nil => simp
  | cons v order ih =>
    obtain ⟨next, hnext, h⟩ := pass_cons.mp h
    obtain ⟨hv, hnodup⟩ := List.nodup_cons.mp hnodup
    obtain rfl : links = next := by
      refine Array.ext_getElem? fun x => ?_
      by_cases hx : x = v
      · exact hx ▸ pass_getElem? h hv
      · exact (relink_getElem? hnext hx).symm
    exact List.forall_mem_cons.mpr ⟨hnext, ih hnodup h⟩

include hpreds in
/-- Where a pass changes nothing, every vertex is linked to where the ways up from its predecessors join. -/
theorem joined_of_round (hg : g.InRange) (hroot : root < g.size) (h : Rising g root links)
    (hfixed : g.round preds root links = some links) (hv : v ∈ g.postorder root) (hne : v ≠ root) {u : Nat}
    (hu : links[v]?.join = some u) {z : Nat} :
    Above links u z ↔ ∀ p, v ∈ g.successors p → HasLink links p → Above links p z := by
  have hlt := postorder_lt hg hroot hv
  have hnodup : (g.postorder root).reverse.tail.Nodup :=
    (List.nodup_reverse.mpr (nodup_postorder g root)).sublist (List.tail_sublist _)
  have hrelink := relink_of_pass hnodup hfixed v (mem_reverse_tail.mpr ⟨hv, hne⟩)
  obtain ⟨d?, hmeet, hjoins⟩ := meetAll_eq_some hg hroot h (hpreds.lt hlt)
  rw [relink, hpreds.getElem? hlt] at hrelink
  simp only [Option.bind_eq_bind, Option.bind_some, hmeet, Option.some.injEq] at hrelink
  have hd : links[v]? = some d? := by
    rw [← hrelink, Array.getElem?_setIfInBounds_self_of_lt (h.size_eq ▸ hlt)]
  obtain rfl : d? = some u := by simpa [hd] using hu
  rw [(hjoins.joined u rfl).2 z]
  simp only [hpreds.mem_iff v hlt]

/-! ### Settling -/

/-- The ranks of all links together. -/
def height (g : Digraph) (root : Nat) (links : Links) : Nat :=
  ∑ v ∈ Finset.range g.size, ((links[v]?.join).map (g.rank root)).getD 0

theorem height_le (hg : g.InRange) (hroot : root < g.size) (h : Rising g root links) :
    g.height root links ≤ g.size * (g.size - 1) := by
  have hterm : ∀ v ∈ Finset.range g.size, ((links[v]?.join).map (g.rank root)).getD 0 ≤ g.size - 1 := fun v _ => by
    cases hu : links[v]?.join with
    | none => simp
    | some u =>
      have := rank_lt_size hg hroot (h.mem (h.listed v u hu).2)
      simp only [Option.map_some, Option.getD_some]
      omega
  simpa [height] using Finset.sum_le_card_nsmul _ _ _ hterm

/-- Links that improve are higher together, unless they are the same. -/
theorem height_lt {links' : Links} (h : Rising g root links) (h' : Rising g root links')
    (hfull : ∀ v ∈ g.postorder root, HasLink links v) (himproves : Improves g root links links') (hne : links' ≠ links) :
    g.height root links < g.height root links' := by
  refine Finset.sum_lt_sum (fun v _ => ?_) ?_
  · cases hu : links[v]?.join with
    | none => simp
    | some u =>
      obtain ⟨u', hu', hle⟩ := himproves v u hu
      simpa [hu'] using hle
  · obtain ⟨v, hv, hdiff⟩ : ∃ v, v < g.size ∧ links'[v]?.join ≠ links[v]?.join := by
      by_contra hno
      push Not at hno
      refine hne (Array.ext (h'.size_eq.trans h.size_eq.symm) fun v hv hv' => ?_)
      have := hno v (h'.size_eq ▸ hv)
      simpa [Array.getElem?_eq_getElem hv, Array.getElem?_eq_getElem hv'] using this
    refine ⟨v, Finset.mem_range.mpr hv, ?_⟩
    cases hu : links[v]?.join with
    | none =>
      -- A vertex without a link is out of reach and gets none.
      cases hu' : links'[v]?.join with
      | none => exact absurd (hu'.trans hu.symm) hdiff
      | some u' =>
        obtain ⟨u, hlink⟩ := hfull v (h'.listed v u' hu').1
        rw [hu] at hlink
        cases hlink
    | some u =>
      obtain ⟨u', hu', hle⟩ := himproves v u hu
      have hne' : g.rank root u ≠ g.rank root u' := fun hrank => hdiff (by
        rw [hu, hu', rank_injective (h.mem (h.listed v u hu).2) hrank])
      simp only [hu', Option.map_some, Option.getD_some]
      omega

/-- Links that are settled: every vertex in reach is linked to where the ways up from its predecessors join, and
no link passes over a dominator. -/
structure Settled (g : Digraph) (root : Nat) (links : Links) : Prop extends Rising g root links where
  full : ∀ v ∈ g.postorder root, HasLink links v
  joined : ∀ v u, links[v]?.join = some u → v ≠ root → ∀ z,
    Above links u z ↔ ∀ p, v ∈ g.successors p → HasLink links p → Above links p z
  covers : ∀ v z, HasLink links v → g.Dominates root z v → Above links v z

include hpreds in
theorem Refining.settled (hg : g.InRange) (hroot : root < g.size) (h : Refining g root parent links)
    (hfull : ∀ v ∈ g.postorder root, HasLink links v) (hfixed : g.round preds root links = some links) :
    Settled g root links where
  toRising := h.toRising
  full := hfull
  joined v u hu hne _ := joined_of_round hpreds hg hroot h.toRising hfixed (h.listed v u hu).1 hne hu
  covers := h.covers

include hpreds in
theorem settle_eq_some (hg : g.InRange) (hroot : root < g.size) (hp : Parents g root parent) (passes : Nat)
    (h : Refining g root parent links) (hfull : ∀ v ∈ g.postorder root, HasLink links v)
    (hpasses : g.size * (g.size - 1) < g.height root links + passes) :
    ∃ final, settle (g.round preds root) passes links = some final ∧ Settled g root final := by
  induction passes generalizing links with
  | zero => exact absurd (height_le hg hroot h.toRising) (by omega)
  | succ passes ih =>
    obtain ⟨next, hnext, h', hfull', himproves⟩ := round_eq_some hpreds hg hroot hp h
    by_cases heq : next = links
    · subst heq
      exact ⟨next, by simp [settle, hnext], h.settled hpreds hg hroot hfull hnext⟩
    · have hlt := height_lt h.toRising h'.toRising hfull himproves heq
      obtain ⟨final, hfinal, hsettled⟩ := ih h' hfull' (by omega)
      exact ⟨final, by simp [settle, hnext, heq, hfinal], hsettled⟩

/-- Before the first pass only the root is linked. -/
def initialLinks (g : Digraph) (root : Nat) : Links := (Array.replicate g.size none).setIfInBounds root (some root)

theorem join_initialLinks (hroot : root < g.size) (v : Nat) :
    (g.initialLinks root)[v]?.join = if root = v then some root else none := by
  unfold initialLinks
  by_cases heq : root = v
  · subst heq
    simp [hroot]
  · rw [Array.getElem?_setIfInBounds_ne heq, Array.getElem?_replicate, if_neg heq]
    split <;> rfl

theorem refining_initialLinks (hroot : root < g.size) : Refining g root parent (g.initialLinks root) := by
  have honly : ∀ (v u : Nat), (g.initialLinks root)[v]?.join = some u → v = root ∧ u = root := fun v u hu => by
    rw [join_initialLinks hroot] at hu
    split at hu
    · cases hu
      exact ⟨(‹root = v›).symm, rfl⟩
    · cases hu
  have hlink : (g.initialLinks root)[root]?.join = some root := by rw [join_initialLinks hroot, if_pos rfl]
  refine ⟨⟨by simp [initialLinks], hlink, fun v u hu => ?_, fun v u hu hne => ?_⟩, fun v z hv hz => ?_,
    fun v u hu hne => ?_, fun v u hu hne => ?_⟩
  · obtain ⟨hv, hu⟩ := honly v u hu
    exact ⟨hv ▸ root_mem_postorder g root, root, hu ▸ hlink⟩
  · exact absurd (honly v u hu).1 hne
  · obtain ⟨u, hu⟩ := hv
    obtain ⟨rfl, -⟩ := honly v u hu
    exact hz.eq_root ▸ .refl
  · exact absurd (honly v u hu).1 hne
  · exact absurd (honly v u hu).1 hne

include hpreds in
/-- Linking comes to an end, without a missing link on the way. -/
theorem linksFrom?_eq_some (hg : g.InRange) (hroot : root < g.size) :
    ∃ links, g.linksFrom? preds root = some links ∧ Settled g root links := by
  obtain ⟨parent, hp⟩ := exists_parents g root
  have hinitial : Refining g root parent (g.initialLinks root) := refining_initialLinks hroot
  obtain ⟨next, hnext, h, hfull, -⟩ := round_eq_some hpreds hg hroot hp hinitial
  have hlinks : g.linksFrom? preds root = settle (g.round preds root) (g.size * g.size + 1) (g.initialLinks root) := rfl
  rw [hlinks, settle]
  simp only [hnext, Option.bind_eq_bind, Option.bind_some]
  by_cases heq : next = g.initialLinks root
  · rw [if_pos heq]
    exact ⟨_, rfl, hinitial.settled hpreds hg hroot (heq ▸ hfull) (heq ▸ hnext)⟩
  · rw [if_neg heq]
    refine settle_eq_some hpreds hg hroot hp (g.size * g.size) h hfull (Nat.lt_of_lt_of_le ?_ (Nat.le_add_left _ _))
    exact Nat.mul_lt_mul_of_pos_left (Nat.sub_one_lt_of_lt hroot) (Nat.zero_lt_of_lt hroot)

end

end

end Digraph
end FlowTree
