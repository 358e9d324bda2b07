import FlowTree.Proofs.Tree.Nesting
import FlowTree.Proofs.Tree.Walk

/-!
The order in which blocks are emitted. An edge in a tree leads on in this order, or back to the header of a loop that
it starts in, and that header dominates where it starts. So every block in reach has a path from the entry that goes
forward only, and whatever dominates the block is on this path.
-/

namespace FlowTree

open Sketch Structuring

namespace Sketch

section
variable {g : FlowGraph} {kind : Kind} {exits : BlockExits} {parts : List Sketch} {s p q : Sketch} {i j : Nat}
  {u v : BlockId}

theorem isOfKind_of_kind? (h : view.kind? s = some kind) : s.isOfKind kind = true := by
  cases s with
  | block => cases h
  | node => simpa [isOfKind, view] using h

theorem Fits.zero_of_loop (h : Fits .loop parts) (hp : parts[0]? = some p) : view.kind? p = none := by
  cases h with
  | sequence sequence => cases sequence
  | loop =>
    obtain rfl := Option.some.inj hp
    rfl

theorem blocks_sublist (hs : s ∈ parts) : s.blocks.Sublist (blocksOf parts) := by
  obtain ⟨front, back, rfl⟩ := List.append_of_mem hs
  rw [blocksOf_append, blocksOf_cons]
  exact (List.sublist_append_left _ _).trans (List.sublist_append_right _ _)

/-- The blocks of an earlier part are emitted before those of a later one. -/
theorem sublist_of_lt (hp : parts[i]? = some p) (hq : parts[j]? = some q) (hij : i < j) (hu : u ∈ p.blocks)
    (hv : v ∈ q.blocks) : [u, v].Sublist (blocksOf parts) := by
  have hfront : u ∈ blocksOf (parts.take j) :=
    mem_blocksOf.mpr ⟨p, List.mem_of_getElem? ((List.getElem?_take_of_lt hij).trans hp), hu⟩
  have hback : v ∈ blocksOf (parts.drop j) := by
    refine mem_blocksOf.mpr ⟨q, List.mem_of_getElem? (i := 0) ?_, hv⟩
    rw [List.getElem?_drop, Nat.add_zero, hq]
  have hsublist := (List.singleton_sublist.mpr hfront).append (List.singleton_sublist.mpr hback)
  rwa [← blocksOf_append, List.take_append_drop] at hsublist

/-- A transfer from one part of a node to another leads on, unless it leads back to the header of a loop. -/
theorem Fits.lt_of_explains (hfits : Fits kind parts) (h : Explains view kind parts i j v) :
    i < j ∨ kind = .loop ∧ firstOf parts = v := by
  cases h with
  | next _ after => exact Or.inl (by omega)
  | arm _ header arm => exact Or.inl (by omega)
  | case _ source case => exact Or.inl (by omega)
  | back loop header child _ first =>
    subst header
    obtain ⟨rest, rfl⟩ : ∃ rest, parts = _ :: rest := List.head?_eq_some_iff.mp (List.head?_eq_getElem?.trans child)
    exact Or.inr ⟨loop, by simpa [view] using first⟩
  | body loop header child isBody =>
    -- The body is not where the header is.
    subst loop header
    refine Or.inl (Nat.pos_of_ne_zero fun hj => ?_)
    subst hj
    rw [hfits.zero_of_loop child] at isBody
    cases isBody
  | continuing loop child isContinue _ source =>
    subst loop
    refine Or.inl ?_
    rcases source with rfl | ⟨body, hbody, isBody⟩
    · refine Nat.pos_of_ne_zero fun hj => ?_
      subst hj
      rw [hfits.zero_of_loop child] at isContinue
      cases isContinue
    · exact hfits.body_before hbody child (isOfKind_of_kind? isBody) (isOfKind_of_kind? isContinue)

/-- An edge in a tree leads on in the order of the blocks, or back to a block that dominates its source. -/
theorem Closed.forward_or_back (hg : g.Linked) (h : Closed g s) (hu : u ∈ s.blocks) (hv : v ∈ s.blocks)
    (hedge : v ∈ g.successors u) : [u, v].Sublist s.blocks ∨ g.digraph.Dominates g.entry v u := by
  induction h.shaped with
  | block b =>
    rw [blocks_block, List.mem_singleton] at hu hv
    exact Or.inr (hu ▸ hv ▸ Digraph.Dominates.refl _ _ _)
  | @node kind exits parts here _ ih =>
    obtain ⟨p, hp, hup⟩ := mem_blocksOf.mp (blocks_node .. ▸ hu)
    obtain ⟨q, hq, hvq⟩ := mem_blocksOf.mp (blocks_node .. ▸ hv)
    obtain ⟨i, hi⟩ := List.mem_iff_getElem?.mp hp
    obtain ⟨j, hj⟩ := List.mem_iff_getElem?.mp hq
    rw [blocks_node]
    by_cases hsame : i = j ∧ p ≠ .block u
    · -- Both ends are in one part.
      obtain ⟨rfl, -⟩ := hsame
      obtain rfl := Option.some.inj (hi.symm.trans hj)
      exact (ih p hp (h.part hp) hup hvq).imp_left fun hsublist => hsublist.trans (blocks_sublist hp)
    · have hcrosses : Crosses parts i j u v := by
        refine ⟨⟨p, hi, hup, fun hij => ?_⟩, q, hj, hvq⟩
        by_contra hne
        exact hsame ⟨hij, hne⟩
      rcases here.lt_of_explains (h.explained.of_node.1 i j u v hcrosses hedge) with hij | ⟨rfl, hfirst⟩
      · exact Or.inl (sublist_of_lt hi hj hij hup hvq)
      · have hdom := h.dominates hg (by simp [isOfKind]) hu
        rw [first_node, hfirst] at hdom
        exact Or.inr hdom

end

end Sketch

/-! ### Paths that go forward -/

section
variable {g : FlowGraph} {b : BlockId} {order vs : List BlockId}

/-- A path from the entry along which the blocks stand in the given order. -/
structure ForwardPath (g : FlowGraph) (order : List BlockId) (b : BlockId) (vs : List BlockId) : Prop where
  path : g.digraph.Path g.entry b vs
  forward : vs.Pairwise fun x y => order.idxOf x < order.idxOf y

theorem ForwardPath.before (h : ForwardPath g order b vs) {x : BlockId} (hx : x ∈ vs) (hne : x ≠ b) :
    order.idxOf x < order.idxOf b := by
  obtain ⟨ws, rfl⟩ := h.path.eq_concat
  rcases List.mem_append.mp hx with hx | hx
  · exact (List.pairwise_append.mp h.forward).2.2 x hx b (List.mem_singleton_self b)
  · exact absurd (List.mem_singleton.mp hx) hne

theorem ForwardPath.tail {v : BlockId} (h : ForwardPath g order b vs) (hedge : v ∈ g.digraph.successors b)
    (hlt : order.idxOf b < order.idxOf v) : ForwardPath g order v (vs ++ [v]) := by
  refine ⟨h.path.tail hedge, List.pairwise_append.mpr ⟨h.forward, List.pairwise_singleton _ _, fun x hx y hy => ?_⟩⟩
  obtain rfl := List.mem_singleton.mp hy
  by_cases hxb : x = b
  · exact hxb ▸ hlt
  · exact (h.before hx hxb).trans hlt

/-- Where every edge leads on in the order or back to a dominator, every block in reach has a path that goes forward:
an edge back leads to a block that is on the path already. -/
theorem exists_forwardPath (hg : g.Linked) (hedges : ∀ u v, g.Reached u → v ∈ g.successors u →
    order.idxOf u < order.idxOf v ∨ g.digraph.Dominates g.entry v u) (hb : g.Reached b) :
    ∃ vs, ForwardPath g order b vs := by
  induction hb with
  | refl => exact ⟨[g.entry], .refl, List.pairwise_singleton _ _⟩
  | @tail u v hu hedge ih =>
    obtain ⟨vs, h⟩ := ih
    rcases hedges u v hu hedge with hlt | hdom
    · exact ⟨_, h.tail (by rwa [hg.successors_digraph]) hlt⟩
    · obtain ⟨ws, hprefix, path⟩ := h.path.exists_before (hdom vs h.path)
      exact ⟨ws, path, h.forward.sublist hprefix.sublist⟩

end

theorem mem_of_idxOf_lt {α : Type} [DecidableEq α] {xs ys : List α} {a b : α} (h : (xs ++ b :: ys).idxOf a <
    (xs ++ b :: ys).idxOf b) : a ∈ xs := by
  by_contra ha
  have hle : (xs ++ b :: ys).idxOf b ≤ xs.length := by
    rw [List.idxOf_append]
    split
    · exact List.idxOf_le_length
    · simp
  rw [List.idxOf_append_of_notMem ha] at h
  omega

/-- The blocks of a tree are emitted in an order that follows dominance: whatever dominates a block is emitted before
it. The entry comes first, and every other block comes after its immediate dominator. -/
theorem emission_follows_dominance {f : Function} {g : FlowGraph} {before : Placement} {t : Tree}
    (accepted : FlowGraph.build f = .ok g) (structured : (Tree.build g before).1 = .ok t) :
    (∀ xs b ys, t.blockList none = xs ++ b :: ys → ∀ a, a ≠ b → g.dominators.dominates a b = true → a ∈ xs) ∧
      (t.blockList none).head? = some g.entry ∧
      ∀ xs b ys, t.blockList none = xs ++ b :: ys → b ≠ g.entry → ∃ d, g.dominators.immediate? b = some d ∧ d ∈ xs := by
  have hg := FlowGraph.build_linked accepted
  obtain ⟨sketch, unvisited, h⟩ := Tree.build_ok hg structured
  rw [h.blockList_eq]
  have hedges : ∀ u v, g.Reached u → v ∈ g.successors u →
      sketch.blocks.idxOf u < sketch.blocks.idxOf v ∨ g.digraph.Dominates g.entry v u := fun u v hu hedge => by
    have hv : g.Reached v := hu.tail hedge
    rw [← h.mem_blocks_iff hg] at hu hv
    exact ((h.closed hg).forward_or_back hg hu hv hedge).imp_left (Digraph.idxOf_lt_of_sublist h.nodup)
  have hbefore : ∀ xs b ys, sketch.blocks = xs ++ b :: ys → ∀ a, a ≠ b → g.dominators.dominates a b = true → a ∈ xs := by
    intro xs b ys hsplit a hne hdom
    obtain ⟨hreached, hpaths⟩ := (FlowGraph.dominates_iff accepted).mp hdom
    obtain ⟨vs, hvs⟩ := exists_forwardPath hg hedges hreached
    have hlt := hvs.before (hpaths vs hvs.path) hne
    rw [hsplit] at hlt
    exact mem_of_idxOf_lt hlt
  refine ⟨hbefore, (h.first_eq hg) ▸ h.shaped.head?_blocks, fun xs b ys hsplit hb => ?_⟩
  have hreached : g.Reached b := (h.mem_blocks_iff hg).mp (by simp [hsplit])
  obtain ⟨d, himmediate, hne, hdom⟩ := FlowGraph.exists_immediate? accepted hreached hb
  exact ⟨d, himmediate, hbefore xs b ys hsplit d hne hdom⟩

/-- A switch whose second case, of two blocks, falls into the first one. -/
def reorderedSample : Function where
  name := "reordered"
  instructions := [
    { op := .label, result := 1 }, { op := .selectionMerge, operands := [.ofId 5] },
    { op := .switch, operands := [.ofId 9, .ofId 5, .ofLiteral 1, .ofId 2, .ofLiteral 2, .ofId 3] },
    { op := .label, result := 2 }, { op := .branch, operands := [.ofId 5] },
    { op := .label, result := 3 }, { op := .branch, operands := [.ofId 4] },
    { op := .label, result := 4 }, { op := .branch, operands := [.ofId 2] },
    { op := .label, result := 5 }, { op := .return }]

theorem reorderedSample_built : ∃ g t, FlowGraph.build reorderedSample = .ok g ∧ (Tree.build g (.none g)).1 = .ok t ∧
    t.blockList none = [0, 2, 3, 1, 4] := by
  have hchecked : hasTree reorderedSample (fun _ t => t.blockList none = [0, 2, 3, 1, 4]) = true := by decide +kernel
  obtain ⟨g, t, hbuild, htree, htest⟩ := exists_of_hasTree hchecked
  exact ⟨g, t, hbuild, htree, of_decide_eq_true htest⟩

/-- In the sample the second case is emitted before the first one that it falls into. -/
theorem emission_follows_dominance_reordered : ∃ g t, FlowGraph.build reorderedSample = .ok g ∧
    (Tree.build g (.none g)).1 = .ok t ∧ t.blockList none = [0, 2, 3, 1, 4] ∧ (t.blockList none).head? = some g.entry ∧
      (∀ a, a ≠ 3 → g.dominators.dominates a 3 = true → a ∈ [0, 2]) ∧
      ∃ d, g.dominators.immediate? 1 = some d ∧ d ∈ [0, 2, 3] := by
  obtain ⟨g, t, hbuild, htree, horder⟩ := reorderedSample_built
  obtain ⟨hbefore, hhead, himmediate⟩ := emission_follows_dominance hbuild htree
  exact ⟨g, t, hbuild, htree, horder, hhead, hbefore [0, 2] 3 [1, 4] horder,
    himmediate [0, 2, 3] 1 [4] horder Nat.one_ne_zero⟩

end FlowTree
