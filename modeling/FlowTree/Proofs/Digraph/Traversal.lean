import FlowTree.Digraph.Traversal
import Mathlib.Data.List.Nodup
import Mathlib.Data.List.Perm.Basic
import Mathlib.Logic.Relation

/-!
What a depth-first traversal reports. It enters every vertex in reach once and no other, and leaves every
vertex that it entered. A vertex is entered from one that is left later, so in postorder every vertex but the
root has a predecessor behind it.
-/

namespace FlowTree
namespace Digraph

/-- A path of edges leads from the one vertex to the other. -/
def Leads (g : Digraph) : Nat → Nat → Prop := Relation.ReflTransGen fun u v => v ∈ g.successors u

/-- Edges lead to vertices of the graph. -/
def InRange (g : Digraph) : Prop := ∀ u, ∀ v ∈ g.successors u, v < g.size

/-- The vertex that an event enters. -/
def Visit.entered? : Visit → Option Nat
  | .enter v => some v
  | .leave _ => none

/-- The vertex that an event leaves. -/
def Visit.left? : Visit → Option Nat
  | .leave v => some v
  | .enter _ => none

/-- The vertices in the order in which they are entered. -/
def entries (events : List Visit) : List Nat := events.filterMap Visit.entered?

/-- The vertices in the order in which they are left. -/
def leavings (events : List Visit) : List Nat := events.filterMap Visit.left?

section
variable (events : List Visit) (v : Nat)

@[simp] theorem entries_nil : entries [] = [] := rfl

@[simp] theorem leavings_nil : leavings [] = [] := rfl

@[simp] theorem entries_enter : entries (.enter v :: events) = v :: entries events := rfl

@[simp] theorem entries_leave : entries (.leave v :: events) = entries events := rfl

@[simp] theorem leavings_enter : leavings (.enter v :: events) = leavings events := rfl

@[simp] theorem leavings_leave : leavings (.leave v :: events) = v :: leavings events := rfl

end

theorem mem_entries {events : List Visit} {v : Nat} : v ∈ entries events ↔ .enter v ∈ events := by
  simp only [entries, List.mem_filterMap]
  constructor
  · rintro ⟨event, hmem, h⟩
    cases event <;> cases h
    exact hmem
  · exact fun h => ⟨_, h, rfl⟩

/-- What the rest of a traversal reports. -/
structure Reports (g : Digraph) (unseen : List Nat) (stack : List (Nat × List Nat)) (events : List Visit) : Prop where
  new : ∀ v ∈ entries events, v ∈ unseen
  nodup : unseen.Nodup → (entries events).Nodup
  pending : ∀ frame ∈ stack, ∀ w ∈ frame.2, w ∈ unseen → w ∈ entries events
  closed : ∀ u ∈ entries events, ∀ w ∈ g.successors u, w ∈ unseen → w ∈ entries events
  left : (leavings events).Perm (stack.map (·.1) ++ entries events)
  order : (stack.map (·.1)).Sublist (leavings events)
  last : stack ≠ [] → (leavings events).getLast? = (stack.map (·.1)).getLast?

section
variable {g : Digraph} {unseen : List Nat} {stack : List (Nat × List Nat)} {v w : Nat} {ws : List Nat} {events : List Visit}

/-- A vertex without pending neighbours is left. -/
theorem Reports.leave (h : Reports g unseen stack events) (hnil : stack = [] → events = []) :
    Reports g unseen ((v, []) :: stack) (.leave v :: events) := by
  refine ⟨h.new, h.nodup, ?_, h.closed, by simpa using h.left, by simpa using h.order, fun _ => ?_⟩
  · intro frame hframe w hw
    rcases List.mem_cons.mp hframe with rfl | hframe
    · cases hw
    · exact h.pending frame hframe w hw
  · cases stack with
    | nil => simp [hnil rfl]
    | cons frame stack =>
      rw [leavings_leave, List.getLast?_cons, h.last (by simp)]
      simp [List.getLast?_cons]

/-- A pending neighbour that has not been seen is entered. -/
theorem Reports.enter (h : Reports g (unseen.erase w) ((w, g.successors w) :: (v, ws) :: stack) events) (hw : w ∈ unseen) :
    Reports g unseen ((v, w :: ws) :: stack) (.enter w :: events) := by
  have hseen : ∀ x ∈ unseen, x ≠ w → x ∈ unseen.erase w := fun x hx hne => (List.mem_erase_of_ne hne).mpr hx
  refine ⟨?_, fun hnodup => ?_, fun frame hframe x hx hunseen => ?_, fun u hu x hx hunseen => ?_, ?_, ?_, fun _ => ?_⟩
  · rw [entries_enter, List.forall_mem_cons]
    exact ⟨hw, fun x hx => List.mem_of_mem_erase (h.new x hx)⟩
  · rw [entries_enter, List.nodup_cons]
    exact ⟨fun hmem => hnodup.not_mem_erase (h.new w hmem), h.nodup (hnodup.erase w)⟩
  · rw [entries_enter, List.mem_cons]
    by_cases hxw : x = w
    · exact Or.inl hxw
    · refine Or.inr ?_
      rcases List.mem_cons.mp hframe with rfl | hframe
      · have hx : x ∈ ws := (List.mem_cons.mp hx).resolve_left hxw
        exact h.pending (v, ws) (by simp) x hx (hseen x hunseen hxw)
      · exact h.pending frame (by simp [hframe]) x hx (hseen x hunseen hxw)
  · rw [entries_enter, List.mem_cons] at hu ⊢
    by_cases hxw : x = w
    · exact Or.inl hxw
    · refine Or.inr ?_
      rcases hu with rfl | hu
      · exact h.pending (u, g.successors u) (by simp) x hx (hseen x hunseen hxw)
      · exact h.closed u hu x hx (hseen x hunseen hxw)
  · rw [leavings_enter, entries_enter]
    exact h.left.trans List.perm_middle.symm
  · exact (List.sublist_cons_self w _).trans h.order
  · rw [leavings_enter, h.last (by simp)]
    exact List.getLast?_cons_cons

/-- A pending neighbour that has been seen is passed over. -/
theorem Reports.skip (h : Reports g unseen ((v, ws) :: stack) events) (hw : w ∉ unseen) :
    Reports g unseen ((v, w :: ws) :: stack) events := by
  refine ⟨h.new, h.nodup, fun frame hframe x hx hunseen => ?_, h.closed, h.left, h.order, fun _ => h.last (by simp)⟩
  rcases List.mem_cons.mp hframe with rfl | hframe
  · have hx : x ∈ ws := (List.mem_cons.mp hx).resolve_left fun heq => hw (heq ▸ hunseen)
    exact h.pending (v, ws) (by simp) x hx hunseen
  · exact h.pending frame (by simp [hframe]) x hx hunseen

end

theorem reports_visitsFrom (g : Digraph) (unseen : List Nat) (stack : List (Nat × List Nat)) :
    Reports g unseen stack (g.visitsFrom unseen stack) := by
  induction unseen, stack using visitsFrom.induct g with
  | case1 unseen =>
    rw [visitsFrom]
    exact ⟨by simp, by simp, by simp, by simp, by simp, by simp, by simp⟩
  | case2 unseen v stack ih =>
    rw [visitsFrom]
    refine ih.leave ?_
    rintro rfl
    rw [visitsFrom]
  | case3 unseen v w ws stack hw ih =>
    rw [visitsFrom, if_pos hw]
    exact ih.enter hw
  | case4 unseen v w ws stack hw ih =>
    rw [visitsFrom, if_neg hw]
    exact ih.skip hw

/-- What is entered follows along edges from the stack. -/
theorem entered_of_closed {g : Digraph} {p : Nat → Prop} (hp : ∀ u w, p u → w ∈ g.successors u → p w)
    (unseen : List Nat) (stack : List (Nat × List Nat))
    (hstack : ∀ frame ∈ stack, p frame.1 ∧ ∀ w ∈ frame.2, w ∈ g.successors frame.1) :
    ∀ w ∈ entries (g.visitsFrom unseen stack), p w := by
  induction unseen, stack using visitsFrom.induct g with
  | case1 unseen =>
    rw [visitsFrom]
    simp
  | case2 unseen v stack ih =>
    rw [visitsFrom]
    exact ih fun frame hframe => hstack frame (List.mem_cons_of_mem _ hframe)
  | case3 unseen v w ws stack hw ih =>
    rw [visitsFrom, if_pos hw]
    obtain ⟨⟨hv, hws⟩, hrest⟩ := List.forall_mem_cons.mp hstack
    obtain ⟨hw', hws⟩ := List.forall_mem_cons.mp hws
    rw [entries_enter, List.forall_mem_cons]
    refine ⟨hp v w hv hw', ih ?_⟩
    rw [List.forall_mem_cons, List.forall_mem_cons]
    exact ⟨⟨hp v w hv hw', fun _ h => h⟩, ⟨hv, hws⟩, hrest⟩
  | case4 unseen v w ws stack hw ih =>
    rw [visitsFrom, if_neg hw]
    obtain ⟨⟨hv, hws⟩, hrest⟩ := List.forall_mem_cons.mp hstack
    exact ih (List.forall_mem_cons.mpr ⟨⟨hv, (List.forall_mem_cons.mp hws).2⟩, hrest⟩)

/-- A vertex is entered from one that is left later. -/
theorem exists_source {g : Digraph} (unseen : List Nat) (stack : List (Nat × List Nat))
    (hstack : ∀ frame ∈ stack, ∀ w ∈ frame.2, w ∈ g.successors frame.1) :
    ∀ w ∈ entries (g.visitsFrom unseen stack), ∃ v, w ∈ g.successors v ∧
      [w, v].Sublist (leavings (g.visitsFrom unseen stack)) := by
  induction unseen, stack using visitsFrom.induct g with
  | case1 unseen =>
    rw [visitsFrom]
    simp
  | case2 unseen v stack ih =>
    rw [visitsFrom]
    intro w hw
    obtain ⟨u, hu, hsub⟩ := ih (fun frame hframe => hstack frame (List.mem_cons_of_mem _ hframe)) w hw
    exact ⟨u, hu, hsub.cons v⟩
  | case3 unseen v w ws stack hw ih =>
    rw [visitsFrom, if_pos hw]
    obtain ⟨hws, hrest⟩ := List.forall_mem_cons.mp hstack
    obtain ⟨hw', hws⟩ := List.forall_mem_cons.mp hws
    rw [entries_enter, leavings_enter, List.forall_mem_cons]
    refine ⟨⟨v, hw', ?_⟩, ih ?_⟩
    · have horder := (reports_visitsFrom g (unseen.erase w) ((w, g.successors w) :: (v, ws) :: stack)).order
      exact List.Sublist.trans (by simp) horder
    · rw [List.forall_mem_cons, List.forall_mem_cons]
      exact ⟨fun _ h => h, hws, hrest⟩
  | case4 unseen v w ws stack hw ih =>
    rw [visitsFrom, if_neg hw]
    obtain ⟨hws, hrest⟩ := List.forall_mem_cons.mp hstack
    exact ih (List.forall_mem_cons.mpr ⟨(List.forall_mem_cons.mp hws).2, hrest⟩)

/-! ### Whole traversals -/

section
variable {g : Digraph} {root : Nat}

theorem postorder_eq : g.postorder root = leavings (g.visits root) := by
  unfold postorder leavings
  congr 1

/-- A traversal enters the vertices in reach. -/
theorem mem_entries_visits (hg : g.InRange) {v : Nat} : v ∈ entries (g.visits root) ↔ g.Leads root v := by
  have reports := reports_visitsFrom g ((List.range g.size).erase root) [(root, g.successors root)]
  unfold visits
  rw [entries_enter, List.mem_cons]
  constructor
  · rintro (rfl | hv)
    · exact .refl
    · have hroot : g.Leads root root := .refl
      exact entered_of_closed (p := g.Leads root) (fun u w hu hw => hu.tail hw) _ _ (by simpa using hroot) v hv
  · intro hv
    induction hv with
    | refl => exact Or.inl rfl
    | @tail u w _ hw ih =>
      by_cases hroot : w = root
      · exact Or.inl hroot
      · have hunseen : w ∈ (List.range g.size).erase root :=
          (List.mem_erase_of_ne hroot).mpr (List.mem_range.mpr (hg u w hw))
        rcases ih with rfl | hu
        · exact Or.inr (reports.pending (u, g.successors u) (by simp) w hw hunseen)
        · exact Or.inr (reports.closed u hu w hw hunseen)

/-- A traversal leaves the vertices that it enters. -/
theorem postorder_perm (g : Digraph) (root : Nat) : (g.postorder root).Perm (entries (g.visits root)) := by
  rw [postorder_eq]
  exact (reports_visitsFrom g ((List.range g.size).erase root) [(root, g.successors root)]).left

theorem mem_postorder (hg : g.InRange) {v : Nat} : v ∈ g.postorder root ↔ g.Leads root v := by
  rw [(postorder_perm g root).mem_iff, mem_entries_visits hg]

theorem nodup_postorder (g : Digraph) (root : Nat) : (g.postorder root).Nodup := by
  have reports := reports_visitsFrom g ((List.range g.size).erase root) [(root, g.successors root)]
  have hnodup := List.nodup_range (n := g.size)
  rw [(postorder_perm g root).nodup_iff]
  unfold visits
  rw [entries_enter, List.nodup_cons]
  exact ⟨fun hmem => hnodup.not_mem_erase (reports.new root hmem), reports.nodup (hnodup.erase root)⟩

/-- The root is left last. -/
theorem getLast?_postorder (g : Digraph) (root : Nat) : (g.postorder root).getLast? = some root := by
  rw [postorder_eq]
  exact (reports_visitsFrom g ((List.range g.size).erase root) [(root, g.successors root)]).last (by simp)

/-- Every vertex in reach but the root has a predecessor that comes later in postorder. -/
theorem exists_later {v : Nat} (hv : v ∈ g.postorder root) (hne : v ≠ root) :
    ∃ u, v ∈ g.successors u ∧ [v, u].Sublist (g.postorder root) := by
  rw [(postorder_perm g root).mem_iff] at hv
  rw [postorder_eq]
  have hv : v ∈ entries (g.visitsFrom ((List.range g.size).erase root) [(root, g.successors root)]) :=
    (List.mem_cons.mp hv).resolve_left hne
  exact exists_source _ _ (by simp) v hv

end

end Digraph
end FlowTree
