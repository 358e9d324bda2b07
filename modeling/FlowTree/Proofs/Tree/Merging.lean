import FlowTree.Proofs.Tree.Exits

/-!
Merging exits. To merge exits is to add their edges one by one, in the order in which they are listed (`pairs`). An edge
that is added again changes nothing, and an edge for a target that is listed already may be added before or after the
edges for other targets. So the edges of merged exits, added one by one, do what the edges of the one and then those of
the other do (`addPairs_pairs_add`), and merging is associative with its order and all.
-/

namespace FlowTree
namespace Exits

variable {β ε : Type}

/-- The edges with their targets, in the order in which they are listed. -/
def pairs (groups : List (β × List ε)) : List (β × ε) := groups.flatMap fun group => group.2.map fun e => (group.1, e)

@[simp] theorem pairs_nil : pairs ([] : List (β × List ε)) = [] := rfl

@[simp]
theorem pairs_cons (t : β) (es : List ε) (rest : List (β × List ε)) :
    pairs ((t, es) :: rest) = es.map (fun e => (t, e)) ++ pairs rest := List.flatMap_cons

theorem mem_pairs {groups : List (β × List ε)} {p : β × ε} : p ∈ pairs groups ↔ ∃ es, (p.1, es) ∈ groups ∧ p.2 ∈ es := by
  simp only [pairs, List.mem_flatMap, List.mem_map]
  constructor
  · rintro ⟨⟨t, es⟩, hgroup, e, he, rfl⟩
    exact ⟨es, hgroup, he⟩
  · rintro ⟨es, hgroup, he⟩
    exact ⟨_, hgroup, p.2, he, rfl⟩

variable [DecidableEq β] [DecidableEq ε]

/-- Add edges for their targets, one after the other. -/
def addPairs (x : Exits β ε) (ps : List (β × ε)) : Exits β ε := ps.foldl (fun x p => x.add p.1 p.2) x

section
variable {x y : Exits β ε} {t t' : β} {e e' : ε} {es : List ε} {ps qs : List (β × ε)} {groups : List (β × List ε)}

@[simp] theorem addPairs_nil : x.addPairs [] = x := rfl

@[simp] theorem addPairs_cons : x.addPairs ((t, e) :: ps) = (x.add t e).addPairs ps := rfl

@[simp] theorem addPairs_append : x.addPairs (ps ++ qs) = (x.addPairs ps).addPairs qs := List.foldl_append

/-- Merging adds the edges one by one. -/
theorem merge_eq_addPairs : x.merge y = (x.addPairs (pairs y.targets)).addReturns y.returnOrKill := by
  unfold merge addPairs pairs addAll
  rw [List.foldl_flatMap]
  simp only [List.foldl_map]

omit [DecidableEq ε] in
theorem lookup_cons {u : β} : ((u, es) :: groups).lookup t = if t = u then some es else groups.lookup t := by
  by_cases h : t = u
  · rw [if_pos h, h, List.lookup_cons_self]
  · rw [if_neg h, List.lookup_cons, beq_eq_false_iff_ne.mpr h]

theorem lookup_insert : (insert t e groups).lookup t' = if t' = t then
    some (if e ∈ (groups.lookup t).getD [] then (groups.lookup t).getD [] else (groups.lookup t).getD [] ++ [e])
    else groups.lookup t' := by
  induction groups with
  | nil => simp [insert, lookup_cons]
  | cons group rest ih =>
    obtain ⟨u, es⟩ := group
    by_cases hu : u = t
    · subst hu
      by_cases h : t' = u <;> simp [insert, lookup_cons, h]
    · by_cases h : t' = u
      · subst h
        simp [insert, hu]
      · simp [insert, lookup_cons, hu, Ne.symm hu, h, ih]

theorem edges_add : (x.add t e).edges t' =
    if t' = t then if e ∈ x.edges t then x.edges t else x.edges t ++ [e] else x.edges t' := by
  unfold edges add
  rw [lookup_insert]
  split <;> rfl

theorem mem_edges_add (h : (t', e') = (t, e) ∨ e' ∈ x.edges t') : e' ∈ (x.add t e).edges t' := by
  rw [edges_add]
  rcases h with h | h
  · cases h
    rw [if_pos rfl]
    split
    · assumption
    · simp
  · split
    · rename_i heq
      subst heq
      split
      · exact h
      · exact List.mem_append_left _ h
    · exact h

theorem mem_edges_addPairs (h : (t, e) ∈ ps ∨ e ∈ x.edges t) : e ∈ (x.addPairs ps).edges t := by
  induction ps generalizing x with
  | nil => exact h.resolve_left List.not_mem_nil
  | cons p ps ih =>
    rcases h with h | h
    · rcases List.mem_cons.mp h with rfl | h
      · exact ih (Or.inr (mem_edges_add (Or.inl rfl)))
      · exact ih (Or.inl h)
    · exact ih (Or.inr (mem_edges_add (Or.inr h)))

theorem insert_of_mem (h : e ∈ (groups.lookup t).getD []) : insert t e groups = groups := by
  induction groups with
  | nil => cases h
  | cons group rest ih =>
    obtain ⟨u, es⟩ := group
    by_cases hu : u = t
    · subst hu
      have h : e ∈ es := by simpa using h
      simp [insert, h]
    · rw [lookup_cons, if_neg (Ne.symm hu)] at h
      simp [insert, hu, ih h]

theorem add_of_mem (h : e ∈ x.edges t) : x.add t e = x := by
  unfold add
  rw [insert_of_mem h]

theorem addPairs_of_mem (h : ∀ p ∈ ps, p.2 ∈ x.edges p.1) : x.addPairs ps = x := by
  induction ps with
  | nil => rfl
  | cons p ps ih =>
    obtain ⟨hp, hps⟩ := List.forall_mem_cons.mp h
    rw [addPairs_cons, add_of_mem hp, ih hps]

theorem insert_append (ht : t ∉ groups.map (·.1)) (e : ε) (rest : List (β × List ε)) :
    insert t e (groups ++ rest) = groups ++ insert t e rest := by
  induction groups with
  | nil => rfl
  | cons group groups ih =>
    obtain ⟨u, es⟩ := group
    rw [List.map_cons, List.mem_cons, not_or] at ht
    simp [insert, Ne.symm ht.1, ih ht.2]

/-! ### The order of adding -/

/-- Adding an edge for a target that is listed already does not change where others are listed. -/
theorem insert_comm (ht : t ∈ groups.map (·.1)) (hne : t' ≠ t) :
    insert t' e' (insert t e groups) = insert t e (insert t' e' groups) := by
  induction groups with
  | nil => cases ht
  | cons group rest ih =>
    obtain ⟨u, es⟩ := group
    by_cases hu : u = t
    · subst hu
      simp [insert, Ne.symm hne]
    · have ht : t ∈ rest.map (·.1) := (List.mem_cons.mp ht).resolve_left (Ne.symm hu)
      by_cases hu' : u = t'
      · subst hu'
        simp [insert, hne]
      · simp [insert, hu, hu', ih ht]

theorem addPairs_add_comm (ht : t ∈ x.targetList) (h : ∀ p ∈ ps, p.1 ≠ t) :
    (x.add t e).addPairs ps = (x.addPairs ps).add t e := by
  induction ps generalizing x with
  | nil => rfl
  | cons p ps ih =>
    obtain ⟨hp, hps⟩ := List.forall_mem_cons.mp h
    have hswap : (x.add t e).add p.1 p.2 = (x.add p.1 p.2).add t e := by
      unfold add
      rw [insert_comm ht hp]
    have ht' : t ∈ (x.add p.1 p.2).targetList := by
      simp only [targetList, add, map_insert]
      split
      · exact ht
      · exact List.mem_append_left _ ht
    rw [addPairs_cons, hswap, ih ht' hps]
    rfl

omit [DecidableEq ε] in
theorem mem_targetList_of_mem_edges (h : e ∈ x.edges t) : t ∈ x.targetList := by
  cases hlookup : x.targets.lookup t with
  | none => simp [edges, hlookup] at h
  | some es =>
    obtain ⟨front, back, heq, -⟩ := List.lookup_eq_some_iff.mp hlookup
    simp [targetList, heq]

/-- The edges of exits with one more edge, added one by one, do what the edges of the exits and then the one more do. -/
theorem addPairs_pairs_insert (hfull : ∀ group ∈ groups, group.2 ≠ []) (hnodup : (groups.map (·.1)).Nodup) :
    x.addPairs (pairs (insert t e groups)) = (x.addPairs (pairs groups)).add t e := by
  induction groups generalizing x with
  | nil => rfl
  | cons group rest ih =>
    obtain ⟨u, es⟩ := group
    obtain ⟨hes, hfull⟩ := List.forall_mem_cons.mp hfull
    obtain ⟨hu, hnodup⟩ := List.nodup_cons.mp hnodup
    obtain ⟨e₀, he₀⟩ := List.exists_mem_of_ne_nil es hes
    unfold insert
    split
    · rename_i heq
      subst heq
      by_cases he : e ∈ es
      · have hmem : e ∈ (x.addPairs (pairs ((u, es) :: rest))).edges u :=
          mem_edges_addPairs (Or.inl (mem_pairs.mpr ⟨es, List.mem_cons_self, he⟩))
        rw [if_pos he, add_of_mem hmem]
      · -- The new edge comes before those for other targets, which makes no difference: its target is listed already.
        have hlisted : u ∈ (x.addPairs (es.map fun e => (u, e))).targetList :=
          mem_targetList_of_mem_edges (mem_edges_addPairs (Or.inl (List.mem_map_of_mem he₀)))
        have hothers : ∀ p ∈ pairs rest, p.1 ≠ u := fun p hp heq => by
          obtain ⟨es', hgroup, -⟩ := mem_pairs.mp hp
          exact hu (List.mem_map.mpr ⟨_, hgroup, heq⟩)
        simp only [if_neg he, pairs_cons, List.map_append, List.map_cons, List.map_nil, addPairs_append, addPairs_cons,
          addPairs_nil]
        exact addPairs_add_comm hlisted hothers
    · rw [pairs_cons, pairs_cons, addPairs_append, addPairs_append, ih hfull hnodup]

theorem addPairs_pairs_addPairs (hy : y.Neat) :
    x.addPairs (pairs (y.addPairs ps).targets) = (x.addPairs (pairs y.targets)).addPairs ps := by
  induction ps generalizing y with
  | nil => rfl
  | cons p ps ih =>
    have hone : x.addPairs (pairs (y.add p.1 p.2).targets) = (x.addPairs (pairs y.targets)).add p.1 p.2 :=
      addPairs_pairs_insert hy.full hy.targets_nodup
    rw [addPairs_cons, ih (hy.add p.1 p.2), hone]
    rfl

theorem addReturns_addPairs (blocks : List β) : (x.addReturns blocks).addPairs ps = (x.addPairs ps).addReturns blocks := by
  induction ps generalizing x with
  | nil => rfl
  | cons p ps ih => exact ih (x := x.add p.1 p.2)

theorem returnOrKill_addPairs : (x.addPairs ps).returnOrKill = x.returnOrKill := by
  induction ps generalizing x with
  | nil => rfl
  | cons p ps ih => exact ih (x := x.add p.1 p.2)

/-- Edges for a target that is not listed yet are listed behind it. -/
theorem addPairs_new {done : List ε} {returns : List β} (ht : t ∉ groups.map (·.1)) (hnodup : (done ++ es).Nodup) :
    ({ targets := groups ++ [(t, done)], returnOrKill := returns } : Exits β ε).addPairs (es.map fun e => (t, e)) =
      { targets := groups ++ [(t, done ++ es)], returnOrKill := returns } := by
  induction es generalizing done with
  | nil => simp
  | cons e es ih =>
    have he : e ∉ done := fun he => (List.nodup_append'.mp hnodup).2.2 he List.mem_cons_self
    have hinsert : insert t e (groups ++ [(t, done)]) = groups ++ [(t, done ++ [e])] := by
      rw [insert_append ht e]
      simp [insert, he]
    rw [List.map_cons, addPairs_cons, add, hinsert, ih (by simpa using hnodup), List.append_assoc, List.singleton_append]

/-- Exits whose edges are added to others for different targets are listed behind those. -/
theorem addPairs_pairs (groups : List (β × List ε)) (returns : List β) {rest : List (β × List ε)}
    (hfull : ∀ group ∈ rest, group.2 ≠ []) (hedges : ∀ group ∈ rest, group.2.Nodup)
    (hnodup : ((groups ++ rest).map (·.1)).Nodup) :
    ({ targets := groups, returnOrKill := returns } : Exits β ε).addPairs (pairs rest) =
      { targets := groups ++ rest, returnOrKill := returns } := by
  induction rest generalizing groups with
  | nil => simp
  | cons group rest ih =>
    obtain ⟨t, es⟩ := group
    obtain ⟨hes, hrest⟩ := List.forall_mem_cons.mp hfull
    obtain ⟨hone, hothers⟩ := List.forall_mem_cons.mp hedges
    obtain ⟨e, es, rfl⟩ := List.exists_cons_of_ne_nil hes
    have hlater : (((groups ++ [(t, e :: es)]) ++ rest).map (·.1)).Nodup := by simpa using hnodup
    have ht : t ∉ groups.map (·.1) := fun ht => by
      rw [List.map_append, List.nodup_append'] at hnodup
      exact hnodup.2.2 ht List.mem_cons_self
    have hfirst : ({ targets := groups, returnOrKill := returns } : Exits β ε).add t e =
        { targets := groups ++ [(t, [e])], returnOrKill := returns } := by
      have hinsert := insert_append ht e []
      rw [List.append_nil] at hinsert
      rw [add, hinsert]
      rfl
    rw [pairs_cons, List.map_cons, List.cons_append, addPairs_cons, addPairs_append, hfirst, addPairs_new ht hone,
      List.singleton_append, ih _ hrest hothers hlater, List.append_assoc, List.singleton_append]

/-! ### The laws of merging -/

theorem Neat.merge_assoc {z : Exits β ε} (hy : y.Neat) : (x.merge y).merge z = x.merge (y.merge z) :=
  calc (x.merge y).merge z
    _ = (((x.addPairs (pairs y.targets)).addReturns y.returnOrKill).addPairs (pairs z.targets)).addReturns
          z.returnOrKill := by rw [merge_eq_addPairs, merge_eq_addPairs]
    _ = ((x.addPairs (pairs y.targets)).addPairs (pairs z.targets)).addReturns (y.returnOrKill ++ z.returnOrKill) := by
      rw [addReturns_addPairs, addReturns, addReturns, addReturns, List.append_assoc]
    _ = (x.addPairs (pairs (y.addPairs (pairs z.targets)).targets)).addReturns (y.returnOrKill ++ z.returnOrKill) := by
      rw [addPairs_pairs_addPairs hy]
    _ = x.merge (y.merge z) := by
      rw [merge_eq_addPairs, merge_eq_addPairs (x := y)]
      simp [addReturns, returnOrKill_addPairs]

theorem Neat.empty_merge (hx : x.Neat) : ({} : Exits β ε).merge x = x := by
  rw [merge_eq_addPairs, addPairs_pairs [] [] hx.full hx.edges_nodup hx.targets_nodup]
  rfl

theorem merge_empty (x : Exits β ε) : x.merge {} = x := by
  rw [merge_eq_addPairs]
  simp [addReturns]

theorem targets_merge_merge (x y : Exits β ε) : ((x.merge y).merge y).targets = (x.merge y).targets := by
  rw [merge_eq_addPairs, addPairs_of_mem]
  · rfl
  · intro p hp
    rw [merge_eq_addPairs]
    exact mem_edges_addPairs (Or.inl hp)

end

/-- The exits that the operations make of empty ones. -/
inductive Reached : Exits β ε → Prop
  | empty : Reached {}
  | add {x : Exits β ε} (hx : Reached x) (target : β) (edge : ε) : Reached (x.add target edge)
  | addReturns {x : Exits β ε} (hx : Reached x) (blocks : List β) : Reached (x.addReturns blocks)
  | merge {x y : Exits β ε} (hx : Reached x) (hy : Reached y) : Reached (x.merge y)
  | remove {x : Exits β ε} (hx : Reached x) (target : β) : Reached (x.remove target)

theorem Reached.neat {x : Exits β ε} (h : x.Reached) : x.Neat := by
  induction h with
  | empty => exact neat_nil []
  | add _ t e ih => exact ih.add t e
  | addReturns _ blocks ih => exact ⟨ih.full, ih.targets_nodup, ih.edges_nodup⟩
  | merge _ _ ih _ => exact ih.merge _
  | remove _ t ih => exact ih.remove t

/-- Merging the exits that can be reached is associative and has the empty ones as its unit, with the order of targets,
of the edges for each of them and of the blocks that leave the function. To merge the same exits once more changes
neither targets nor edges. -/
theorem merge_ordered_monoid {a b : Exits β ε} (ha : a.Reached) (hb : b.Reached) (c : Exits β ε) :
    (a.merge b).merge c = a.merge (b.merge c) ∧ ({} : Exits β ε).merge a = a ∧ a.merge {} = a ∧
      ((a.merge b).merge b).targetList = (a.merge b).targetList ∧
      ∀ t, ((a.merge b).merge b).edges t = (a.merge b).edges t := by
  refine ⟨hb.neat.merge_assoc, ha.neat.empty_merge, merge_empty a, ?_, fun t => ?_⟩
  · rw [targetList, targets_merge_merge]
    rfl
  · rw [edges, targets_merge_merge]
    rfl

theorem merge_ordered_monoid_overlapping : ∃ x y z : Exits Nat Nat, x.Reached ∧ y.Reached ∧
    x.targets = [(3, [0, 2]), (1, [1])] ∧ y.targets = [(1, [4, 1]), (5, [6])] ∧ z.targets = [(5, [6, 7]), (3, [2, 8])] ∧
      (x.merge y).merge z = x.merge (y.merge z) ∧
      x.merge (y.merge z) = ⟨[(3, [0, 2, 8]), (1, [1, 4]), (5, [6, 7])], [9, 9]⟩ := by
  have hx : Reached (⟨[(3, [0, 2]), (1, [1])], []⟩ : Exits Nat Nat) := .add (.add (.add .empty 3 0) 1 1) 3 2
  have hy : Reached (⟨[(1, [4, 1]), (5, [6])], [9]⟩ : Exits Nat Nat) :=
    .addReturns (.add (.add (.add .empty 1 4) 5 6) 1 1) [9]
  exact ⟨_, _, ⟨[(5, [6, 7]), (3, [2, 8])], [9]⟩, hx, hy, rfl, rfl, rfl, (merge_ordered_monoid hx hy _).1, by decide⟩

end Exits
end FlowTree
