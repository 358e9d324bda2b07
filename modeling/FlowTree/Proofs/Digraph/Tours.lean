import FlowTree.Proofs.Digraph.Traversal

/-!
How the visits of a traversal lie to each other. Between entering and leaving a vertex the traversal goes through the
successors of the vertex (`Tour`), so of two visits one encloses the other or they follow each other. Where every vertex
is a successor of one vertex at most, one visit encloses another just when the one vertex leads to the other
(`encloses_iff_leads`).
-/

namespace FlowTree
namespace Digraph

/-- The events of going through vertices one after the other. A vertex is passed over, or it is entered and left and
its successors are gone through in between. -/
inductive Tour (g : Digraph) : List Nat → List Visit → Prop
  | nil : Tour g [] []
  | skip {w : Nat} {ws : List Nat} {events : List Visit} (rest : Tour g ws events) : Tour g (w :: ws) events
  | visit {w : Nat} {ws : List Nat} {inner events : List Visit} (inside : Tour g (g.successors w) inner)
    (rest : Tour g ws events) : Tour g (w :: ws) (.enter w :: (inner ++ .leave w :: events))

/-- The events of unwinding a stack: going through what is left of each frame, and leaving its vertex. -/
inductive Unwinds (g : Digraph) : List (Nat × List Nat) → List Visit → Prop
  | nil : Unwinds g [] []
  | frame {v : Nat} {ws : List Nat} {stack : List (Nat × List Nat)} {inner events : List Visit} (inside : Tour g ws inner)
    (rest : Unwinds g stack events) : Unwinds g ((v, ws) :: stack) (inner ++ .leave v :: events)

theorem unwinds_visitsFrom (g : Digraph) (unseen : List Nat) (stack : List (Nat × List Nat)) :
    Unwinds g stack (g.visitsFrom unseen stack) := by
  induction unseen, stack using visitsFrom.induct g with
  | case1 unseen =>
    rw [visitsFrom]
    exact .nil
  | case2 unseen v stack ih =>
    rw [visitsFrom]
    exact .frame .nil ih
  | case3 unseen v w ws stack hw ih =>
    rw [visitsFrom, if_pos hw]
    -- What is reported for the new vertex comes before what is reported for the rest of its frame.
    generalize g.visitsFrom (unseen.erase w) ((w, g.successors w) :: (v, ws) :: stack) = events at ih
    rcases ih with _ | ⟨inside, _ | ⟨rest, below⟩⟩
    have := Unwinds.frame (v := v) (.visit inside rest) below
    simpa using this
  | case4 unseen v w ws stack hw ih =>
    rw [visitsFrom, if_neg hw]
    generalize g.visitsFrom unseen ((v, ws) :: stack) = events at ih
    rcases ih with _ | ⟨inside, below⟩
    exact .frame (.skip inside) below

theorem tour_visits (g : Digraph) (root : Nat) : Tour g [root] (g.visits root) := by
  unfold visits
  have h := unwinds_visitsFrom g ((List.range g.size).erase root) [(root, g.successors root)]
  generalize g.visitsFrom _ _ = events at h
  rcases h with _ | ⟨inside, _ | _⟩
  exact .visit inside .nil

/-- The visit of `v` lies within that of `u`. -/
def Encloses (events : List Visit) (u v : Nat) : Prop := [Visit.enter u, .enter v, .leave v, .leave u].Sublist events

/-- The visit of `u` is over before that of `v`. -/
def Precedes (events : List Visit) (u v : Nat) : Prop := [Visit.enter u, .leave u, .enter v, .leave v].Sublist events

section
variable {g : Digraph} {ws : List Nat} {events : List Visit} {u v : Nat}

theorem mem_entries_append {xs ys : List Visit} : v ∈ entries (xs ++ ys) ↔ v ∈ entries xs ∨ v ∈ entries ys := by
  simp [entries]

theorem mem_entries_visit {w : Nat} {inner : List Visit} :
    v ∈ entries (.enter w :: (inner ++ .leave w :: events)) ↔ v = w ∨ v ∈ entries inner ∨ v ∈ entries events := by
  rw [entries_enter, List.mem_cons, mem_entries_append, entries_leave]

theorem sublist_visit {w : Nat} {inner xs ys : List Visit} (hx : xs.Sublist inner) (hy : ys.Sublist events) :
    (.enter w :: (xs ++ .leave w :: ys)).Sublist (.enter w :: (inner ++ .leave w :: events)) :=
  (hx.append (hy.cons_cons _)).cons_cons _

theorem inner_sublist {w : Nat} {inner : List Visit} : inner.Sublist (.enter w :: (inner ++ .leave w :: events)) :=
  (List.sublist_append_left _ _).trans (List.sublist_cons_self _ _)

theorem rest_sublist {w : Nat} {inner : List Visit} : events.Sublist (.enter w :: (inner ++ .leave w :: events)) :=
  ((List.sublist_cons_self _ _).trans (List.sublist_append_right _ _)).trans (List.sublist_cons_self _ _)

theorem Tour.sublist (h : Tour g ws events) (hu : u ∈ entries events) : [Visit.enter u, .leave u].Sublist events := by
  induction h with
  | nil => cases hu
  | skip _ ih => exact ih hu
  | visit _ _ ihInner ihRest =>
    rcases mem_entries_visit.mp hu with rfl | hu | hu
    · exact sublist_visit (List.nil_sublist _) (List.nil_sublist _)
    · exact (ihInner hu).trans inner_sublist
    · exact (ihRest hu).trans rest_sublist

theorem Tour.leads (h : Tour g ws events) (hv : v ∈ entries events) : ∃ w ∈ ws, g.Leads w v := by
  induction h with
  | nil => cases hv
  | skip _ ih =>
    obtain ⟨w, hw, hlead⟩ := ih hv
    exact ⟨w, List.mem_cons_of_mem _ hw, hlead⟩
  | @visit w _ _ _ _ _ ihInner ihRest =>
    rcases mem_entries_visit.mp hv with rfl | hv | hv
    · exact ⟨v, List.mem_cons_self, .refl⟩
    · obtain ⟨x, hx, hlead⟩ := ihInner hv
      exact ⟨w, List.mem_cons_self, .head hx hlead⟩
    · obtain ⟨x, hx, hlead⟩ := ihRest hv
      exact ⟨x, List.mem_cons_of_mem _ hx, hlead⟩

/-- A vertex is one of those that are gone through, or is entered during the visit of a predecessor. -/
theorem Tour.source (h : Tour g ws events) (hv : v ∈ entries events) :
    v ∈ ws ∨ ∃ u, v ∈ g.successors u ∧ Encloses events u v := by
  induction h with
  | nil => cases hv
  | skip _ ih =>
    rcases ih hv with hmem | hsource
    · exact Or.inl (List.mem_cons_of_mem _ hmem)
    · exact Or.inr hsource
  | @visit w _ _ _ inside rest ihInner ihRest =>
    rcases mem_entries_visit.mp hv with rfl | hv | hv
    · exact Or.inl List.mem_cons_self
    · rcases ihInner hv with hmem | ⟨u, hstep, hencloses⟩
      · exact Or.inr ⟨w, hmem, sublist_visit (inside.sublist hv) (List.nil_sublist _)⟩
      · exact Or.inr ⟨u, hstep, hencloses.trans inner_sublist⟩
    · rcases ihRest hv with hmem | ⟨u, hstep, hencloses⟩
      · exact Or.inl (List.mem_cons_of_mem _ hmem)
      · exact Or.inr ⟨u, hstep, hencloses.trans rest_sublist⟩

/-- Of two visits one encloses the other or they follow each other. A vertex leads to those whose visits its own
encloses. -/
theorem Tour.compare (h : Tour g ws events) (hu : u ∈ entries events) (hv : v ∈ entries events) (hne : u ≠ v) :
    g.Leads u v ∨ Encloses events v u ∨ Precedes events u v ∨ Precedes events v u := by
  induction h with
  | nil => cases hu
  | skip _ ih => exact ih hu hv
  | @visit w _ inner later inside rest ihInner ihRest =>
    -- What is entered in the visit of `w` is left before what comes later.
    have hafter : ∀ x y, x = w ∨ x ∈ entries inner → y ∈ entries later →
        Precedes (.enter w :: (inner ++ .leave w :: later)) x y := by
      intro x y hx hy
      rcases hx with rfl | hx
      · exact sublist_visit (List.nil_sublist _) (rest.sublist hy)
      · exact ((inside.sublist hx).append ((rest.sublist hy).cons (.leave w))).cons _
    rcases mem_entries_visit.mp hu with rfl | hu' | hu'
    · rcases mem_entries_visit.mp hv with rfl | hv' | hv'
      · exact absurd rfl hne
      · obtain ⟨x, hx, hlead⟩ := inside.leads hv'
        exact Or.inl (.head hx hlead)
      · exact Or.inr (Or.inr (Or.inl (hafter _ _ (Or.inl rfl) hv')))
    · rcases mem_entries_visit.mp hv with rfl | hv' | hv'
      · exact Or.inr (Or.inl (sublist_visit (inside.sublist hu') (List.nil_sublist _)))
      · rcases ihInner hu' hv' with hlead | hlies | hlies | hlies
        · exact Or.inl hlead
        · exact Or.inr (Or.inl (hlies.trans inner_sublist))
        · exact Or.inr (Or.inr (Or.inl (hlies.trans inner_sublist)))
        · exact Or.inr (Or.inr (Or.inr (hlies.trans inner_sublist)))
      · exact Or.inr (Or.inr (Or.inl (hafter _ _ (Or.inr hu') hv')))
    · rcases mem_entries_visit.mp hv with rfl | hv' | hv'
      · exact Or.inr (Or.inr (Or.inr (hafter _ _ (Or.inl rfl) hu')))
      · exact Or.inr (Or.inr (Or.inr (hafter _ _ (Or.inr hv') hu')))
      · rcases ihRest hu' hv' with hlead | hlies | hlies | hlies
        · exact Or.inl hlead
        · exact Or.inr (Or.inl (hlies.trans rest_sublist))
        · exact Or.inr (Or.inr (Or.inl (hlies.trans rest_sublist)))
        · exact Or.inr (Or.inr (Or.inr (hlies.trans rest_sublist)))

end

/-! ### Times of events -/

theorem nodup_events {events : List Visit} (hentries : (entries events).Nodup) (hleavings : (leavings events).Nodup) :
    events.Nodup := by
  induction events with
  | nil => exact .nil
  | cons event events ih =>
    cases event with
    | enter v =>
      rw [entries_enter, List.nodup_cons, mem_entries] at hentries
      exact List.nodup_cons.mpr ⟨hentries.1, ih hentries.2 hleavings⟩
    | leave v =>
      rw [leavings_leave, List.nodup_cons] at hleavings
      refine List.nodup_cons.mpr ⟨fun hmem => hleavings.1 ?_, ih hentries hleavings.2⟩
      exact List.mem_filterMap.mpr ⟨_, hmem, rfl⟩

theorem nodup_visits (g : Digraph) (root : Nat) : (g.visits root).Nodup := by
  have hleavings : (leavings (g.visits root)).Nodup := postorder_eq ▸ nodup_postorder g root
  exact nodup_events ((postorder_perm g root).nodup_iff.mp (nodup_postorder g root)) hleavings

/-- Of two events of a traversal, the one that is reported first has the lower number. -/
theorem idxOf_lt_of_sublist {α : Type} [DecidableEq α] {xs : List α} (hnodup : xs.Nodup) {a b : α}
    (h : [a, b].Sublist xs) : xs.idxOf a < xs.idxOf b := by
  obtain ⟨front, back, rfl, ha, hb⟩ := List.cons_sublist_iff.mp h
  have hb : b ∈ back := List.singleton_sublist.mp hb
  have hfront : b ∉ front := fun hmem => (List.nodup_append'.mp hnodup).2.2 hmem hb
  rw [List.idxOf_append_of_mem ha, List.idxOf_append_of_notMem hfront]
  exact Nat.lt_add_right _ (List.idxOf_lt_length_iff.mpr ha)

/-- Where every vertex has one predecessor at most and the root has none, a vertex leads to those that are entered
no sooner and left no later than it is. -/
theorem encloses_iff_leads {g : Digraph} (hg : g.InRange) {root u v : Nat} (hroot : ∀ x, root ∉ g.successors x)
    (hunique : ∀ x x' y, y ∈ g.successors x → y ∈ g.successors x' → x = x') (hu : u ∈ entries (g.visits root))
    (hv : v ∈ entries (g.visits root)) :
    (g.visits root).idxOf (.enter u) ≤ (g.visits root).idxOf (.enter v) ∧
      (g.visits root).idxOf (.leave v) ≤ (g.visits root).idxOf (.leave u) ↔ g.Leads u v := by
  have hbefore {a b : Visit} {events : List Visit} (hlies : events.Sublist (g.visits root))
      (hab : [a, b].Sublist events) : (g.visits root).idxOf a < (g.visits root).idxOf b :=
    idxOf_lt_of_sublist (nodup_visits g root) (hab.trans hlies)
  have htour := tour_visits g root
  constructor
  · rintro ⟨hentered, hleft⟩
    by_cases heq : u = v
    · exact heq ▸ .refl
    · rcases htour.compare hu hv heq with hlead | hlies | hlies | hlies
      · exact hlead
      · exact absurd hentered (Nat.not_le.mpr (hbefore hlies (by simp)))
      · have hlate : [Visit.leave u, .leave v].Sublist [Visit.enter u, .leave u, .enter v, .leave v] := by simp
        exact absurd hleft (Nat.not_le.mpr (hbefore hlies hlate))
      · have hlate : [Visit.enter v, .enter u].Sublist [Visit.enter v, .leave v, .enter u, .leave u] := by simp
        exact absurd hentered (Nat.not_le.mpr (hbefore hlies hlate))
  · intro hlead
    clear hv
    induction hlead with
    | refl => exact ⟨Nat.le_refl _, Nat.le_refl _⟩
    | @tail x y hlead hstep ih =>
      -- The one predecessor of a vertex is the one that the traversal enters it from.
      have hy : y ∈ entries (g.visits root) :=
        (mem_entries_visits hg).mpr ((((mem_entries_visits hg).mp hu).trans hlead).tail hstep)
      rcases htour.source hy with hmem | ⟨x', hstep', hlies⟩
      · exact absurd (List.mem_singleton.mp hmem ▸ hstep) (hroot x)
      · obtain rfl := hunique x x' y hstep hstep'
        have hentered := hbefore hlies (a := .enter x) (b := .enter y) (by simp)
        have hleft := hbefore hlies (a := .leave y) (b := .leave x) (by simp)
        exact ⟨Nat.le_trans ih.1 (Nat.le_of_lt hentered), Nat.le_trans (Nat.le_of_lt hleft) ih.2⟩

end Digraph
end FlowTree
