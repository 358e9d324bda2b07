import FlowTree.Proofs.Digraph.Dominance

/-!
Depth-first search by recursion. Going through vertices one after the other marks each unmarked one, goes through its
successors and leaves it (`explore`). The traversal that keeps a stack leaves the vertices in the same order: what is
on the stack are the calls that are still open, each with the vertices that it has yet to go through
(`leavings_visitsFrom`).
-/

namespace FlowTree
namespace Digraph

theorem length_erase_lt {vs : List Nat} {v : Nat} (h : v ∈ vs) : (vs.erase v).length < vs.length :=
  Nat.lt_of_lt_of_eq (Nat.lt_succ_self _) (List.length_erase_add_one h)

/-- What a search hands on: the vertices that are still unmarked, and those that it left, in order. -/
structure Explored (unmarked : List Nat) where
  rest : List Nat
  order : List Nat
  length_le : rest.length ≤ unmarked.length

/-- Go through vertices in the order of the list. A marked one is passed over. An unmarked one is marked, its successors
are gone through, and it is left. -/
def explore (g : Digraph) (unmarked : List Nat) : (vs : List Nat) → Explored unmarked
  | [] => ⟨unmarked, [], Nat.le_refl _⟩
  | v :: vs =>
    if found : v ∈ unmarked then
      let inner := explore g (unmarked.erase v) (g.successors v)
      let later := explore g inner.rest vs
      have hinner : inner.rest.length < unmarked.length :=
        Nat.lt_of_le_of_lt inner.length_le (length_erase_lt found)
      ⟨later.rest, inner.order ++ v :: later.order, Nat.le_trans later.length_le (Nat.le_of_lt hinner)⟩
    else explore g unmarked vs
termination_by vs => (unmarked.length, vs.length)
decreasing_by
  · exact Prod.Lex.left _ _ (length_erase_lt found)
  · exact Prod.Lex.left _ _ (Nat.lt_of_le_of_lt inner.length_le (length_erase_lt found))
  · exact Prod.Lex.right _ (Nat.lt_succ_self _)

/-- The vertices in the order in which a search by recursion from the root leaves them. -/
def depthFirst (g : Digraph) (root : Nat) : List Nat :=
  (g.explore ((List.range g.size).erase root) (g.successors root)).order ++ [root]

section
variable {g : Digraph} {unmarked vs : List Nat} {v : Nat}

@[simp]
theorem explore_nil : g.explore unmarked [] = ⟨unmarked, [], Nat.le_refl _⟩ := by
  rw [explore]

theorem explore_cons_of_notMem (h : v ∉ unmarked) : g.explore unmarked (v :: vs) = g.explore unmarked vs := by
  rw [explore, dif_neg h]

theorem rest_explore_cons (h : v ∈ unmarked) : (g.explore unmarked (v :: vs)).rest =
    (g.explore (g.explore (unmarked.erase v) (g.successors v)).rest vs).rest := by
  rw [explore, dif_pos h]

theorem order_explore_cons (h : v ∈ unmarked) : (g.explore unmarked (v :: vs)).order =
    (g.explore (unmarked.erase v) (g.successors v)).order ++
      v :: (g.explore (g.explore (unmarked.erase v) (g.successors v)).rest vs).order := by
  rw [explore, dif_pos h]

end

/-- With a vertex on top of the stack, the traversal goes through what is left of its successors as the search does,
leaves the vertex, and goes on with the marks that the search hands on. -/
theorem leavings_visitsFrom (g : Digraph) (unmarked ws : List Nat) (v : Nat) (stack : List (Nat × List Nat)) :
    leavings (g.visitsFrom unmarked ((v, ws) :: stack)) = (g.explore unmarked ws).order ++
      v :: leavings (g.visitsFrom (g.explore unmarked ws).rest stack) := by
  induction unmarked, ws using explore.induct g generalizing v stack with
  | case1 unmarked =>
    rw [visitsFrom, explore_nil]
    rfl
  | case2 unmarked w ws found inner _ ihInner ihLater =>
    -- The call for the new vertex opens above the one that goes on with the rest of the list.
    rw [visitsFrom, if_pos found, leavings_enter, ihInner w ((v, ws) :: stack), ihLater v stack,
      order_explore_cons found, rest_explore_cons found, List.append_assoc, List.cons_append]
  | case3 unmarked w ws marked ih =>
    rw [visitsFrom, if_neg marked, ih v stack, explore_cons_of_notMem marked]

/-- The traversal with a stack and the search by recursion leave the vertices in the same order. -/
theorem postorder_eq_depthFirst (g : Digraph) (root : Nat) : g.postorder root = g.depthFirst root := by
  rw [postorder_eq, visits, leavings_enter, leavings_visitsFrom, visitsFrom]
  rfl

section
variable {g : Digraph} {root : Nat}

theorem rpo_dominatorsFrom (preds : Array (List Nat)) : (g.dominatorsFrom preds root).rpo = (g.postorder root).reverse :=
  rfl

/-- In reverse postorder a vertex other than the root stands behind one of its predecessors. -/
theorem exists_predecessor_before {front back : List Nat} {v : Nat} (h : (g.postorder root).reverse = front ++ v :: back)
    (hne : v ≠ root) : ∃ u ∈ front, u ∈ g.predecessors v := by
  have hv : v ∈ g.postorder root := by
    rw [← List.mem_reverse, h]
    exact List.mem_append_right _ List.mem_cons_self
  obtain ⟨u, hu, edge, hrank⟩ := exists_parent hv hne
  exact ⟨u, (rank_lt_iff h hu).mp hrank, mem_predecessors.mpr edge⟩

/-- The traversal with a stack leaves the vertices in the order of the search by recursion. So reverse postorder lists
the vertices in reach, each once, from the root on and each other one behind a predecessor. -/
theorem postorder_by_recursion (hg : g.InRange) (preds : Array (List Nat)) (root : Nat) :
    g.postorder root = g.depthFirst root ∧
      (g.dominatorsFrom preds root).rpo = (g.depthFirst root).reverse ∧
      (g.dominatorsFrom preds root).rpo.Nodup ∧
      (∀ v, v ∈ (g.dominatorsFrom preds root).rpo ↔ ∃ vs, g.Path root v vs) ∧
      (g.dominatorsFrom preds root).rpo.head? = some root ∧
      ∀ front v back, (g.dominatorsFrom preds root).rpo = front ++ v :: back → v ≠ root →
        ∃ u ∈ front, u ∈ g.predecessors v := by
  rw [rpo_dominatorsFrom]
  refine ⟨postorder_eq_depthFirst g root, by rw [postorder_eq_depthFirst], List.nodup_reverse.mpr (nodup_postorder g root),
    fun v => ?_, ?_, fun _ _ _ hsplit hne => exists_predecessor_before hsplit hne⟩
  · rw [List.mem_reverse, mem_postorder hg, leads_iff_exists_path]
  · rw [List.head?_reverse, getLast?_postorder]

end

theorem postorder_by_recursion_twoWays : twoWays.InRange ∧ twoWays.postorder 0 = [3, 2, 1, 0] ∧
    twoWays.depthFirst 0 = [3, 2, 1, 0] ∧ (¬∃ vs, twoWays.Path 0 4 vs) ∧ ∃ u ∈ [0, 1], u ∈ twoWays.predecessors 2 := by
  have hg : twoWays.InRange := by decide
  obtain ⟨heq, hrpo, -, hmem, -, hbefore⟩ := postorder_by_recursion hg twoWaysSources 0
  have horder : twoWays.postorder 0 = [3, 2, 1, 0] := by cbv
  have hlist : (twoWays.dominatorsFrom twoWaysSources 0).rpo = [0, 1, 2, 3] := by
    rw [hrpo, ← heq, horder]
    rfl
  refine ⟨hg, horder, heq ▸ horder, fun hpath => ?_, hbefore [0, 1] 2 [3] hlist (by decide)⟩
  have hlisted := (hmem 4).mpr hpath
  rw [hlist] at hlisted
  exact absurd hlisted (by decide)

end Digraph
end FlowTree
