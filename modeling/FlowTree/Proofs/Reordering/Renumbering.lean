import FlowTree.Proofs.FlowGraph.Linked
import FlowTree.Proofs.Tree.Exits
import FlowTree.Tree.Structuring

/-!
Graphs that have the same blocks under other numbers. The numbers of the blocks of the one graph are those of the other
under an injective map, and this map takes the successors of a block to those of the block with the new number. Edges
have numbers of their own that do not correspond, so of exits only the list of targets is compared: every target that is
listed has an edge, whichever it is.
-/

namespace FlowTree

open Structuring

section
variable {α β : Type} [DecidableEq α] [DecidableEq β] {f : α → β}

omit [DecidableEq α] [DecidableEq β] in
theorem filter_map_eq {p : α → Bool} {q : β → Bool} (h : ∀ a, q (f a) = p a) (xs : List α) :
    (xs.map f).filter q = (xs.filter p).map f := by
  rw [List.filter_map, show q ∘ f = p from funext h]

theorem filter_mem_map (hf : Function.Injective f) (xs ys : List α) :
    (xs.map f).filter (· ∈ ys.map f) = (xs.filter (· ∈ ys)).map f := by
  refine filter_map_eq (fun x => ?_) xs
  exact decide_eq_decide.mpr (List.mem_map_of_injective hf)

theorem filter_notMem_map (hf : Function.Injective f) (xs ys : List α) :
    (xs.map f).filter (· ∉ ys.map f) = (xs.filter (· ∉ ys)).map f := by
  refine filter_map_eq (fun x => ?_) xs
  exact decide_eq_decide.mpr (List.mem_map_of_injective hf).not

theorem filter_ne_map (hf : Function.Injective f) (xs : List α) (a : α) :
    (xs.map f).filter (· ≠ f a) = (xs.filter (· ≠ a)).map f := by
  refine filter_map_eq (fun x => ?_) xs
  exact decide_eq_decide.mpr hf.ne_iff

theorem eraseDups_map (hf : Function.Injective f) (xs : List α) : (xs.map f).eraseDups = xs.eraseDups.map f := by
  induction xs using eraseDups_induction with
  | nil => rfl
  | cons x xs ih =>
    have hfilter : ((xs.map f).filter fun y => !y == f x) = (xs.filter fun y => !y == x).map f :=
      filter_map_eq (fun y => by simp [hf.eq_iff]) xs
    rw [List.map_cons, List.eraseDups_cons, List.eraseDups_cons, hfilter, ih, List.map_cons]

end

/-- The second graph has the blocks of the first one under the numbers that the map gives. -/
structure Renumbers (g g' : FlowGraph) (σ : BlockId → BlockId) : Prop where
  source : g.Linked
  target : g'.Linked
  injective : Function.Injective σ
  size_eq : g'.size = g.size
  entry_eq : σ g.entry = g'.entry
  block?_eq : ∀ b, g'.block? (σ b) = g.block? b
  blockOf?_eq : ∀ label, g'.blockOf? label = (g.blockOf? label).map σ

namespace Renumbers

variable {g g' : FlowGraph} {σ : BlockId → BlockId} (h : Renumbers g g' σ)
include h

theorem lt_iff {b : BlockId} : σ b < g'.size ↔ b < g.size := by
  have hsome : ∀ (g : FlowGraph) b, b < g.size ↔ (g.block? b).isSome :=
    fun g b => by simp [FlowGraph.block?, FlowGraph.size]
  rw [hsome, hsome, h.block?_eq]

theorem blockName_eq (b : BlockId) : g'.blockName (σ b) = g.blockName b := by
  simp [FlowGraph.blockName, h.block?_eq]

theorem mapM_blockOf? {α : Type} (label : α → Id) (items : List α) :
    items.mapM (fun a => g'.blockOf? (label a)) = (items.mapM fun a => g.blockOf? (label a)).map (List.map σ) := by
  induction items with
  | nil => rfl
  | cons a items ih =>
    rw [List.mapM_cons, List.mapM_cons, ih, h.blockOf?_eq]
    cases g.blockOf? (label a) <;> cases items.mapM fun a => g.blockOf? (label a) <;> rfl

/-- The successors have new numbers, in the same order. -/
theorem successors_eq (b : BlockId) : g'.successors (σ b) = (g.successors b).map σ := by
  by_cases hb : b < g.size
  · obtain ⟨block, found⟩ := FlowGraph.block?_eq_some_of_lt hb
    obtain ⟨i, labels, targets, ends, hlabels, htargets, hsuccessors⟩ := h.source.terminator b block found
    obtain ⟨i', labels', targets', ends', hlabels', htargets', hsuccessors'⟩ :=
      h.target.terminator (σ b) block ((h.block?_eq b).trans found)
    obtain rfl := Option.some.inj (ends.symm.trans ends')
    obtain rfl := Option.some.inj (hlabels.symm.trans hlabels')
    have hmapped := h.mapM_blockOf? id labels
    simp only [id_eq] at hmapped
    rw [htargets, htargets', Option.map_some, Option.some.injEq] at hmapped
    rw [hsuccessors, hsuccessors', hmapped, eraseDups_map h.injective]
  · rw [h.source.successors_eq_nil hb, h.target.successors_eq_nil (mt h.lt_iff.mp hb), List.map_nil]

/-- The edges out of a block lead to the same blocks under their new numbers. -/
theorem outgoing_targets (b : BlockId) :
    List.Forall₂ (fun e e' => g'.target? e' = (g.target? e).map σ) (g.outgoingEdges b) (g'.outgoingEdges (σ b)) := by
  have hsome : ∀ {g : FlowGraph}, g.Linked → ∀ b, (g.outgoingEdges b).map g.target? = (g.successors b).map some := by
    intro g hg b
    unfold FlowGraph.successors
    rw [List.map_filterMap]
    refine (List.filterMap_eq_map_iff_forall_eq_some.mpr fun e he => ?_).symm
    obtain ⟨edge, hedge, -⟩ := hg.edge b e he
    simp [FlowGraph.target?, hedge]
  have hmaps : (g'.outgoingEdges (σ b)).map g'.target? = (g.outgoingEdges b).map fun e => (g.target? e).map σ := by
    calc
      (g'.outgoingEdges (σ b)).map g'.target? = ((g.successors b).map some).map (Option.map σ) := by
        rw [hsome h.target, h.successors_eq, List.map_map, List.map_map]
        rfl
      _ = (g.outgoingEdges b).map fun e => (g.target? e).map σ := by
        rw [← hsome h.source, List.map_map]
        rfl
  rw [← List.forall₂_eq_eq_eq, List.forall₂_map_left_iff, List.forall₂_map_right_iff] at hmaps
  exact hmaps.flip

theorem edgeBetween?_toList_eq_nil (a b : BlockId) :
    (g.edgeBetween? a b).toList = [] ↔ (g'.edgeBetween? (σ a) (σ b)).toList = [] := by
  have hnone : ∀ {g : FlowGraph}, g.Linked → ∀ a b, (g.edgeBetween? a b).toList = [] ↔ b ∉ g.successors a := by
    intro g hg a b
    rw [Option.toList_eq_nil_iff, Option.eq_none_iff_forall_ne_some, FlowGraph.mem_successors_iff, not_exists]
    simp only [ne_eq, hg.edgeBetween?_eq_some_iff]
  rw [hnone h.source, hnone h.target, h.successors_eq, List.mem_map_of_injective h.injective]

end Renumbers

end FlowTree
