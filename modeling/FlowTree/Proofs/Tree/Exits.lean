import FlowTree.Tree.Exits
import Mathlib.Data.List.Nodup

/-!
What exits record. An edge is recorded under the block that it leads to; each operation on exits is
described by the edges that are recorded after it. Every target that is listed has an edge (`Full`), so
the list of targets says the same as the records, and nothing is listed twice (`Neat`).
-/

namespace FlowTree
namespace Exits

variable {β ε : Type} [DecidableEq β] [DecidableEq ε]

/-- The edge is recorded as leaving for the target. -/
def Records (x : Exits β ε) (target : β) (edge : ε) : Prop :=
  ∃ edges, (target, edges) ∈ x.targets ∧ edge ∈ edges

/-- Every target that is listed has an edge. -/
def Full (x : Exits β ε) : Prop := ∀ group ∈ x.targets, group.2 ≠ []

omit [DecidableEq β] [DecidableEq ε] in
theorem mem_targetList {x : Exits β ε} {t : β} : t ∈ x.targetList ↔ ∃ edges, (t, edges) ∈ x.targets := by
  simp [targetList]

omit [DecidableEq β] [DecidableEq ε] in
theorem Records.mem_targetList {x : Exits β ε} {t : β} {e : ε} (h : x.Records t e) : t ∈ x.targetList := by
  obtain ⟨edges, hmem, -⟩ := h
  exact Exits.mem_targetList.mpr ⟨edges, hmem⟩

omit [DecidableEq β] [DecidableEq ε] in
theorem Full.exists_records {x : Exits β ε} (hx : x.Full) {t : β} (ht : t ∈ x.targetList) :
    ∃ e, x.Records t e := by
  obtain ⟨edges, hmem⟩ := Exits.mem_targetList.mp ht
  obtain ⟨e, he⟩ := List.exists_mem_of_ne_nil edges (hx _ hmem)
  exact ⟨e, edges, hmem, he⟩

omit [DecidableEq ε] in
theorem has_iff {x : Exits β ε} {t : β} : x.has t = true ↔ t ∈ x.targetList := by
  simp [has, targetList]

omit [DecidableEq β] [DecidableEq ε] in
@[simp]
theorem not_records_nil (returns : List β) (t : β) (e : ε) : ¬({ returnOrKill := returns } : Exits β ε).Records t e := by
  simp [Records]

omit [DecidableEq β] [DecidableEq ε] in
@[simp]
theorem full_nil (returns : List β) : ({ returnOrKill := returns } : Exits β ε).Full := by
  simp [Full]

/-! ### Adding and removing edges -/

theorem mem_insert_iff {t : β} {e : ε} {t' : β} {e' : ε} :
    ∀ {groups : List (β × List ε)}, (∃ edges, (t', edges) ∈ insert t e groups ∧ e' ∈ edges) ↔
      (∃ edges, (t', edges) ∈ groups ∧ e' ∈ edges) ∨ (t' = t ∧ e' = e)
  | [] => by simp [insert, and_assoc]
  | (u, edges) :: rest => by
    by_cases hu : u = t
    · subst hu
      by_cases he : e ∈ edges
      · simp only [insert, if_true, if_pos he]
        constructor
        · exact Or.inl
        · rintro (h | ⟨rfl, rfl⟩)
          · exact h
          · exact ⟨edges, List.mem_cons_self, he⟩
      · simp only [insert, if_true, if_neg he, List.mem_cons, Prod.mk.injEq]
        constructor
        · rintro ⟨es, ⟨rfl, rfl⟩ | h, hmem⟩
          · rcases List.mem_append.mp hmem with h | h
            · exact Or.inl ⟨edges, Or.inl ⟨rfl, rfl⟩, h⟩
            · exact Or.inr ⟨rfl, List.mem_singleton.mp h⟩
          · exact Or.inl ⟨es, Or.inr h, hmem⟩
        · rintro (⟨es, ⟨rfl, rfl⟩ | h, hmem⟩ | ⟨rfl, rfl⟩)
          · exact ⟨_, Or.inl ⟨rfl, rfl⟩, List.mem_append_left _ hmem⟩
          · exact ⟨es, Or.inr h, hmem⟩
          · exact ⟨_, Or.inl ⟨rfl, rfl⟩, List.mem_append_right _ (List.mem_singleton_self _)⟩
    · have hrest := @mem_insert_iff t e t' e' rest
      simp only [insert, if_neg hu, List.mem_cons, or_and_right, exists_or, hrest]
      exact or_assoc.symm

/-- What holds of the edges of every target holds of them when one is added. -/
theorem forall_mem_insert {p : List ε → Prop} {t : β} {e : ε} (hnew : p [e]) (hadd : ∀ es, e ∉ es → p es → p (es ++ [e])) :
    ∀ {groups : List (β × List ε)}, (∀ group ∈ groups, p group.2) → ∀ group ∈ insert t e groups, p group.2
  | [], _ => by simpa [insert] using hnew
  | (u, edges) :: rest, h => by
    obtain ⟨hedges, hrest⟩ := List.forall_mem_cons.mp h
    unfold insert
    split
    · refine List.forall_mem_cons.mpr ⟨?_, hrest⟩
      split
      · exact hedges
      · exact hadd edges ‹_› hedges
    · exact List.forall_mem_cons.mpr ⟨hedges, forall_mem_insert hnew hadd hrest⟩

@[simp]
theorem records_add {x : Exits β ε} {t t' : β} {e e' : ε} :
    (x.add t e).Records t' e' ↔ x.Records t' e' ∨ (t' = t ∧ e' = e) :=
  mem_insert_iff

omit [DecidableEq β] [DecidableEq ε] in
/-- Steps that each record some more edges record those of all steps. -/
theorem records_foldl {α : Type} {f : Exits β ε → α → Exits β ε} {p : α → β → ε → Prop}
    (h : ∀ x a t e, (f x a).Records t e ↔ x.Records t e ∨ p a t e) {items : List α} {x : Exits β ε} {t : β}
    {e : ε} : (items.foldl f x).Records t e ↔ x.Records t e ∨ ∃ a ∈ items, p a t e := by
  induction items generalizing x with
  | nil => simp
  | cons a items ih => simp [ih, h, or_assoc]

@[simp]
theorem records_addAll {x : Exits β ε} {t t' : β} {es : List ε} {e : ε} :
    (x.addAll t es).Records t' e ↔ x.Records t' e ∨ (t' = t ∧ e ∈ es) := by
  unfold addAll
  rw [records_foldl (p := fun e₀ t₀ e => t₀ = t ∧ e = e₀) fun _ _ _ _ => records_add]
  refine or_congr_right ⟨?_, ?_⟩
  · rintro ⟨_, he, rfl, rfl⟩
    exact ⟨rfl, he⟩
  · rintro ⟨rfl, he⟩
    exact ⟨e, he, rfl, rfl⟩

@[simp]
theorem records_merge {x y : Exits β ε} {t : β} {e : ε} :
    (x.merge y).Records t e ↔ x.Records t e ∨ y.Records t e := by
  have h : (x.merge y).Records t e ↔
      (y.targets.foldl (fun x group => x.addAll group.1 group.2) x).Records t e := Iff.rfl
  rw [h, records_foldl (p := fun group t e => t = group.1 ∧ e ∈ group.2) fun _ _ _ _ => records_addAll]
  refine or_congr_right ⟨?_, ?_⟩
  · rintro ⟨⟨_, edges⟩, hmem, rfl, he⟩
    exact ⟨edges, hmem, he⟩
  · rintro ⟨edges, hmem, he⟩
    exact ⟨_, hmem, rfl, he⟩

omit [DecidableEq ε] in
@[simp]
theorem records_remove {x : Exits β ε} {t t' : β} {e : ε} :
    (x.remove t).Records t' e ↔ x.Records t' e ∧ t' ≠ t := by
  simp only [Records, remove, List.mem_filter, decide_eq_true_eq]
  constructor
  · rintro ⟨edges, ⟨hmem, hne⟩, he⟩
    exact ⟨⟨edges, hmem, he⟩, hne⟩
  · rintro ⟨⟨edges, hmem, he⟩, hne⟩
    exact ⟨edges, ⟨hmem, hne⟩, he⟩

omit [DecidableEq ε] in
theorem targetList_remove (x : Exits β ε) (t : β) : (x.remove t).targetList = x.targetList.filter (· ≠ t) := by
  simp [targetList, remove, List.filter_map, Function.comp_def]

theorem map_insert (t : β) (e : ε) :
    ∀ groups : List (β × List ε), (insert t e groups).map (·.1) =
      if t ∈ groups.map (·.1) then groups.map (·.1) else groups.map (·.1) ++ [t]
  | [] => by simp [insert]
  | (u, edges) :: rest => by
    by_cases hu : u = t
    · simp [insert, hu]
    · have hrest := map_insert t e rest
      by_cases hmem : t ∈ rest.map (·.1)
      · simp only [insert, if_neg hu, List.map_cons, hrest, if_pos hmem, List.mem_cons_of_mem u hmem, if_true]
      · have hnot : t ∉ u :: rest.map (·.1) := by simp [Ne.symm hu, hmem]
        simp only [insert, if_neg hu, List.map_cons, hrest, if_neg hmem, if_neg hnot, List.cons_append]

/-- The targets with one more at the end, unless it is among them. -/
def noted (ts : List β) (t : β) : List β := if t ∈ ts then ts else ts ++ [t]

theorem noted_noted (ts : List β) (t : β) : noted (noted ts t) t = noted ts t := by
  have hmem : t ∈ noted ts t := by
    unfold noted
    split
    · assumption
    · simp
  rw [noted, if_pos hmem]

theorem targetList_add (x : Exits β ε) (t : β) (e : ε) : (x.add t e).targetList = noted x.targetList t :=
  map_insert t e x.targets

theorem targetList_addAll (x : Exits β ε) (t : β) {es : List ε} (hes : es ≠ []) :
    (x.addAll t es).targetList = noted x.targetList t := by
  induction es generalizing x with
  | nil => exact absurd rfl hes
  | cons e es ih =>
    have hcons : x.addAll t (e :: es) = (x.add t e).addAll t es := rfl
    by_cases hrest : es = []
    · subst hrest
      exact targetList_add x t e
    · rw [hcons, ih (x.add t e) hrest, targetList_add, noted_noted]

theorem targetList_merge (x : Exits β ε) {y : Exits β ε} (hy : y.Full) :
    (x.merge y).targetList = y.targetList.foldl noted x.targetList := by
  have key : ∀ (groups : List (β × List ε)) (x : Exits β ε), (∀ group ∈ groups, group.2 ≠ []) →
      (groups.foldl (fun x group => x.addAll group.1 group.2) x).targetList =
        (groups.map (·.1)).foldl noted x.targetList := by
    intro groups
    induction groups with
    | nil => exact fun _ _ => rfl
    | cons group groups ih =>
      intro x hfull
      obtain ⟨hgroup, hgroups⟩ := List.forall_mem_cons.mp hfull
      rw [List.foldl_cons, ih _ hgroups, targetList_addAll x group.1 hgroup, List.map_cons, List.foldl_cons]
  exact key y.targets x hy

/-! ### Each edge once -/

theorem nodup_add {x : Exits β ε} (hx : x.targetList.Nodup) (t : β) (e : ε) : (x.add t e).targetList.Nodup := by
  simp only [targetList, add, map_insert]
  split
  · exact hx
  · exact List.nodup_append'.mpr ⟨hx, List.nodup_singleton t, List.disjoint_singleton.mpr ‹_›⟩

/-- Every target that is listed has an edge, and both targets and the edges for each of them are listed once. -/
structure Neat (x : Exits β ε) : Prop where
  full : x.Full
  targets_nodup : x.targetList.Nodup
  edges_nodup : ∀ group ∈ x.targets, group.2.Nodup

section
variable {x : Exits β ε} {t : β} {e : ε}

omit [DecidableEq β] [DecidableEq ε] in
theorem neat_nil (returns : List β) : ({ returnOrKill := returns } : Exits β ε).Neat :=
  ⟨full_nil returns, by simp [targetList], by simp⟩

theorem Neat.add (hx : x.Neat) (t : β) (e : ε) : (x.add t e).Neat where
  full := forall_mem_insert (p := (· ≠ [])) (by simp) (by simp) hx.full
  targets_nodup := nodup_add hx.targets_nodup t e
  edges_nodup := forall_mem_insert (p := List.Nodup) (List.nodup_singleton e)
    (fun _ he hes => List.nodup_append'.mpr ⟨hes, List.nodup_singleton e, List.disjoint_singleton.mpr he⟩) hx.edges_nodup

theorem Neat.addAll (hx : x.Neat) (t : β) (es : List ε) : (x.addAll t es).Neat :=
  List.foldlRecOn (motive := Neat) es _ hx fun _ hx e _ => hx.add t e

theorem Neat.merge (hx : x.Neat) (y : Exits β ε) : (x.merge y).Neat := by
  have h := List.foldlRecOn (motive := Neat) y.targets _ hx fun _ hx group _ => hx.addAll group.1 group.2
  exact ⟨h.full, h.targets_nodup, h.edges_nodup⟩

omit [DecidableEq β] [DecidableEq ε] in
/-- Targets that are left out are not missed. -/
theorem Neat.filter (hx : x.Neat) (p : β × List ε → Bool) :
    ({ x with targets := x.targets.filter p } : Exits β ε).Neat where
  full group h := hx.full group (List.mem_filter.mp h).1
  targets_nodup := hx.targets_nodup.sublist (List.filter_sublist.map _)
  edges_nodup group h := hx.edges_nodup group (List.mem_filter.mp h).1

omit [DecidableEq ε] in
theorem Neat.remove (hx : x.Neat) (t : β) : (x.remove t).Neat := hx.filter _

omit [DecidableEq ε] in
/-- The edges for a target are the group that is listed for it. -/
theorem Neat.lookup_eq_some_iff (hx : x.Neat) {es : List ε} : x.targets.lookup t = some es ↔ (t, es) ∈ x.targets := by
  rw [List.lookup_eq_some_iff]
  constructor
  · rintro ⟨front, back, heq, -⟩
    exact heq ▸ List.mem_append_right front List.mem_cons_self
  · intro hmem
    obtain ⟨front, back, heq⟩ := List.append_of_mem hmem
    refine ⟨front, back, heq, fun group hgroup => ?_⟩
    have hnodup := hx.targets_nodup
    rw [targetList, heq, List.map_append, List.nodup_append'] at hnodup
    have hne : t ≠ group.1 := fun hsame => hnodup.2.2 (List.mem_map_of_mem hgroup) (by simp [hsame])
    simpa using hne

omit [DecidableEq ε] in
theorem Neat.mem_edges (hx : x.Neat) : e ∈ x.edges t ↔ x.Records t e := by
  unfold edges Records
  simp only [← hx.lookup_eq_some_iff]
  cases x.targets.lookup t <;> simp

omit [DecidableEq ε] in
theorem Neat.nodup_edges (hx : x.Neat) (t : β) : (x.edges t).Nodup := by
  unfold edges
  cases hlookup : x.targets.lookup t with
  | none => exact .nil
  | some es => exact hx.edges_nodup _ (hx.lookup_eq_some_iff.mp hlookup)

end

/-! ### Exits for given targets -/

/-- Edges leave for exactly the given targets, and each of them is listed once. -/
structure Leaves (x : Exits β ε) (ts : List β) : Prop extends Neat x where
  mem_iff : ∀ t, t ∈ x.targetList ↔ t ∈ ts

section
variable {x y : Exits β ε} {ts us : List β} {t : β}

omit [DecidableEq β] [DecidableEq ε] in
theorem Full.mem_targetList_iff (hx : x.Full) : t ∈ x.targetList ↔ ∃ e, x.Records t e :=
  ⟨hx.exists_records, fun ⟨_, he⟩ => he.mem_targetList⟩

omit [DecidableEq β] [DecidableEq ε] in
theorem Leaves.exists_records_iff (hx : x.Leaves ts) : (∃ e, x.Records t e) ↔ t ∈ ts := by
  rw [← hx.full.mem_targetList_iff, hx.mem_iff]

omit [DecidableEq β] [DecidableEq ε] in
theorem Leaves.of_records (neat : x.Neat) (h : ∀ t, (∃ e, x.Records t e) ↔ t ∈ ts) : x.Leaves ts :=
  ⟨neat, fun t => by rw [neat.full.mem_targetList_iff, h]⟩

omit [DecidableEq β] [DecidableEq ε] in
theorem Leaves.congr (hx : x.Leaves ts) (h : ∀ t, t ∈ ts ↔ t ∈ us) : x.Leaves us :=
  ⟨hx.toNeat, fun t => (hx.mem_iff t).trans (h t)⟩

omit [DecidableEq β] [DecidableEq ε] in
theorem leaves_nil (returns : List β) : ({ returnOrKill := returns } : Exits β ε).Leaves [] :=
  ⟨neat_nil returns, by simp [targetList]⟩

theorem Leaves.addAll (hx : x.Leaves ts) (t : β) {es : List ε} (hne : es ≠ []) : (x.addAll t es).Leaves (t :: ts) := by
  refine .of_records (hx.toNeat.addAll t es) fun u => ?_
  obtain ⟨e, he⟩ := List.exists_mem_of_ne_nil es hne
  simp only [records_addAll, exists_or, hx.exists_records_iff, List.mem_cons]
  constructor
  · rintro (hu | ⟨_, rfl, -⟩)
    · exact Or.inr hu
    · exact Or.inl rfl
  · rintro (rfl | hu)
    · exact Or.inr ⟨e, rfl, he⟩
    · exact Or.inl hu

theorem Leaves.merge (hx : x.Leaves ts) (hy : y.Leaves us) : (x.merge y).Leaves (ts ++ us) := by
  refine .of_records (hx.toNeat.merge y) fun u => ?_
  simp [records_merge, exists_or, hx.exists_records_iff, hy.exists_records_iff]

omit [DecidableEq ε] in
theorem Leaves.remove (hx : x.Leaves ts) (t : β) : (x.remove t).Leaves (ts.filter (· ≠ t)) := by
  refine .of_records (hx.toNeat.remove t) fun u => ?_
  simp [records_remove, hx.exists_records_iff]

omit [DecidableEq β] [DecidableEq ε] in
theorem Leaves.targetList_eq_nil (hx : x.Leaves []) : x.targetList = [] :=
  List.eq_nil_iff_forall_not_mem.mpr fun t ht => List.not_mem_nil ((hx.mem_iff t).mp ht)

omit [DecidableEq β] [DecidableEq ε] in
theorem Leaves.targetList_eq (hx : x.Leaves [t]) : x.targetList = [t] := by
  have := (List.perm_ext_iff_of_nodup hx.targets_nodup (List.nodup_singleton t)).mpr hx.mem_iff
  exact List.perm_singleton.mp this

end

end Exits
end FlowTree
