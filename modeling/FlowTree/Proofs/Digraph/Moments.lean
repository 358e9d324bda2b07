import FlowTree.Proofs.Digraph.Dominance

/-!
The moments of linking. Between the first pass and the last, whichever vertices a pass has linked already, links lead
up to the root, and any two linked vertices meet in the deepest vertex above both (`Rising.joint`). So linking never
gets stuck, and since the links add up to more with each pass that changes them, the passes come to an end
(`linking_settles`).
-/

namespace FlowTree
namespace Digraph

open Dominators

/-- The moments of linking: the links when the given vertices have been linked in a pass. At the start of a pass this is
the root, and a pass may follow one that is over. -/
inductive Moment (g : Digraph) (preds : Array (List Nat)) (root : Nat) : List Nat → Links → Prop
  | start : Moment g preds root [root] (g.initialLinks root)
  | link {done rest : List Nat} {v : Nat} {links links' : Links} (moment : Moment g preds root done links)
    (next : (g.postorder root).reverse = done ++ v :: rest)
    (linked : relink (g.numbers root) preds links v = some links') : Moment g preds root (done ++ [v]) links'
  | again {links : Links} (moment : Moment g preds root (g.postorder root).reverse links) : Moment g preds root [root] links

/-- When `v` is linked, its linked predecessor `p` is to meet `d`, the meet of the predecessors before it. -/
structure Meets (g : Digraph) (preds : Array (List Nat)) (root : Nat) (links : Links) (v p d : Nat) : Prop where
  linked : HasLink links p
  exists_before : ∃ before after, preds[v]? = some (before ++ p :: after) ∧
    meetAll (g.numbers root) links before = some (some d)

/-- The deepest of the vertices that climbing leads to from both. -/
structure Joint (links : Links) (u v w : Nat) : Prop where
  left : Above links u w
  right : Above links v w
  deepest : ∀ z, Above links u z → Above links v z → Above links w z

theorem meet_of_le {number : Array Nat} {links : Links} {steps steps' u v w : Nat}
    (h : meet number links steps u v = some w) (hle : steps ≤ steps') : meet number links steps' u v = some w := by
  induction steps generalizing steps' u v with
  | zero => cases h
  | succ steps ih =>
    obtain ⟨steps', rfl⟩ := Nat.exists_eq_succ_of_ne_zero (Nat.ne_zero_of_lt hle)
    unfold meet at h ⊢
    by_cases heq : u = v
    · rwa [if_pos heq] at h ⊢
    · rw [if_neg heq] at h ⊢
      simp only [Option.bind_eq_bind, Option.bind_eq_some_iff] at h ⊢
      obtain ⟨a, ha, b, hb, h⟩ := h
      refine ⟨a, ha, b, hb, ?_⟩
      by_cases hlt : a < b
      · rw [if_pos hlt, Option.bind_eq_some_iff] at h ⊢
        obtain ⟨u', hu, h⟩ := h
        exact ⟨u', hu, ih h (Nat.le_of_succ_le_succ hle)⟩
      · rw [if_neg hlt, Option.bind_eq_some_iff] at h ⊢
        obtain ⟨v', hv, h⟩ := h
        exact ⟨v', hv, ih h (Nat.le_of_succ_le_succ hle)⟩

theorem settle_of_le {step : Links → Option Links} {passes passes' : Nat} {links final : Links}
    (h : settle step passes links = some final) (hle : passes ≤ passes') : settle step passes' links = some final := by
  induction passes generalizing passes' links with
  | zero => cases h
  | succ passes ih =>
    obtain ⟨passes', rfl⟩ := Nat.exists_eq_succ_of_ne_zero (Nat.ne_zero_of_lt hle)
    unfold settle at h ⊢
    simp only [Option.bind_eq_bind, Option.bind_eq_some_iff] at h ⊢
    obtain ⟨next, hnext, h⟩ := h
    refine ⟨next, hnext, ?_⟩
    by_cases heq : next = links
    · rwa [if_pos heq] at h ⊢
    · rw [if_neg heq] at h ⊢
      exact ih h (Nat.le_of_succ_le_succ hle)

section
variable {g : Digraph} {preds : Array (List Nat)} {root : Nat} {parent : Nat → Nat} {done : List Nat} {links : Links}

theorem Moment.root_mem (h : Moment g preds root done links) : root ∈ done := by
  induction h with
  | start => exact List.mem_singleton_self root
  | link _ _ _ ih => exact List.mem_append_left _ ih
  | again => exact List.mem_singleton_self root

theorem Moment.passing (hg : g.InRange) (hpreds : g.Mirrors preds) (hroot : root < g.size) (hp : Parents g root parent)
    (h : Moment g preds root done links) : Passing g root parent done links := by
  induction h with
  | start => exact (refining_initialLinks hroot).passing
  | link moment next linked ih =>
    obtain ⟨_, hlinked, hpassing, -⟩ := relink_eq_some hg hroot hp hpreds next (ne_root_of_next moment.root_mem next) ih
    rw [linked] at hlinked
    cases hlinked
    exact hpassing
  | again _ ih => exact ih.toRefining.passing

/-- Any two linked vertices meet in the deepest vertex above both, in at most two steps for every vertex. -/
theorem Rising.joint (hg : g.InRange) (hroot : root < g.size) (h : Rising g root links) {u v : Nat} (hu : HasLink links u)
    (hv : HasLink links v) : ∃ w, Joint links u v w ∧
      ∀ steps, 2 * g.size ≤ steps → meet (g.numbers root) links steps u v = some w := by
  have hsize := rank_lt_size hg hroot (root_mem_postorder g root)
  obtain ⟨w, hw, -, hjoin⟩ := meet_eq_some hg hroot h (2 * g.size) hu hv (by omega)
  obtain ⟨hleft, hright⟩ := (hjoin w).mp .refl
  exact ⟨w, ⟨hleft, hright, fun z hzu hzv => (hjoin z).mpr ⟨hzu, hzv⟩⟩, fun steps hsteps => meet_of_le hw hsteps⟩

/-- What a predecessor is to meet is linked. -/
theorem Meets.linked_meet (hg : g.InRange) (hpreds : g.Mirrors preds) (hroot : root < g.size) (h : Rising g root links)
    {v p d : Nat} (hmeets : Meets g preds root links v p d) : HasLink links d := by
  obtain ⟨before, after, hlist, hmeet⟩ := hmeets.exists_before
  have hv : v < g.size := hpreds.size_eq ▸ (Array.getElem?_eq_some_iff.mp hlist).1
  have hbefore : ∀ x ∈ before, x < g.size := fun x hx =>
    hpreds.lt hv x (by simpa [hlist] using Or.inl hx)
  obtain ⟨d?, hd, hjoins⟩ := meetAll_eq_some hg hroot h hbefore
  rw [hmeet, Option.some.injEq] at hd
  exact (hjoins.joined d hd.symm).1

/-! ### The moments of a run -/

theorem Moment.of_pass {rest : List Nat} {links' : Links} (h : Moment g preds root done links)
    (hsplit : (g.postorder root).reverse = done ++ rest) (hpass : pass (g.numbers root) preds rest links = some links') :
    Moment g preds root (g.postorder root).reverse links' := by
  induction rest generalizing done links with
  | nil =>
    cases hpass
    rwa [hsplit, List.append_nil]
  | cons v rest ih =>
    obtain ⟨next, hnext, hpass⟩ := pass_cons.mp hpass
    exact ih (h.link hsplit hnext) (by rw [hsplit, List.append_assoc, List.singleton_append]) hpass

/-- The last links are those at the end of a pass. -/
theorem Moment.of_settle {passes : Nat} {final : Links} (h : Moment g preds root [root] links)
    (hsettle : settle (g.round preds root) passes links = some final) :
    Moment g preds root (g.postorder root).reverse final := by
  induction passes generalizing links with
  | zero => cases hsettle
  | succ passes ih =>
    unfold settle at hsettle
    simp only [Option.bind_eq_bind, Option.bind_eq_some_iff] at hsettle
    obtain ⟨next, hnext, hsettle⟩ := hsettle
    have hmoment := h.of_pass (reverse_postorder g root) hnext
    split at hsettle
    · rename_i hfixed
      cases hsettle
      exact hfixed ▸ hmoment
    · exact ih hmoment.again hsettle

/-- Linking comes to an end. At every moment the link of a vertex other than the root goes up in postorder, and
following links leads to the root. So every two vertices that are to meet do so, in the deepest vertex above both, and
the next vertex is linked. After finitely many passes the links are settled, however many more are allowed. -/
theorem linking_settles (hg : g.InRange) (hpreds : g.Mirrors preds) (hroot : root < g.size) :
    (∀ done links, Moment g preds root done links →
      (∀ v ∈ done, HasLink links v) ∧
      (∀ v u, links[v]?.join = some u → v ≠ root → g.rank root v < g.rank root u) ∧
      (∀ v, HasLink links v → Above links v root) ∧
      (∀ v p d, Meets g preds root links v p d → ∃ w, Joint links p d w ∧
        ∀ steps, 2 * g.size ≤ steps → meet (g.numbers root) links steps p d = some w) ∧
      ∀ v rest, (g.postorder root).reverse = done ++ v :: rest →
        ∃ links', relink (g.numbers root) preds links v = some links') ∧
    ∃ links, g.linksFrom? preds root = some links ∧ Moment g preds root (g.postorder root).reverse links ∧
      ∀ passes, g.size * g.size < passes → settle (g.round preds root) passes (g.initialLinks root) = some links := by
  obtain ⟨parent, hp⟩ := exists_parents g root
  refine ⟨fun done links moment => ?_, ?_⟩
  · have h := moment.passing hg hpreds hroot hp
    refine ⟨h.linked, h.rises, fun v hv => h.above_root hv, fun v p d hmeets => ?_, fun v rest next => ?_⟩
    · exact h.joint hg hroot hmeets.linked (hmeets.linked_meet hg hpreds hroot h.toRising)
    · have hne := ne_root_of_next moment.root_mem next
      obtain ⟨links', hlinked, -⟩ := relink_eq_some hg hroot hp hpreds next hne h
      exact ⟨links', hlinked⟩
  · obtain ⟨links, hlinks, -⟩ := linksFrom?_eq_some hpreds hg hroot
    have hsettle : settle (g.round preds root) (g.size * g.size + 1) (g.initialLinks root) = some links := hlinks
    exact ⟨links, hlinks, Moment.start.of_settle hsettle, fun passes hpasses => settle_of_le hsettle hpasses⟩

end

/-- The links in `twoWays` when only the first vertex after the root has been linked. -/
def twoWaysLinks : Links := #[some 0, some 0, none, none, none]

theorem linking_settles_twoWays : twoWays.InRange ∧ twoWays.Mirrors twoWaysSources ∧ 0 < twoWays.size ∧
    Moment twoWays twoWaysSources 0 [0, 1] twoWaysLinks ∧ Meets twoWays twoWaysSources 0 twoWaysLinks 2 0 1 ∧
    Joint twoWaysLinks 0 1 0 ∧ ∃ links, twoWays.linksFrom? twoWaysSources 0 = some links := by
  have hg : twoWays.InRange := by decide
  have hpreds : twoWays.Mirrors twoWaysSources := by decide
  have hroot : 0 < twoWays.size := by decide
  have horder : (twoWays.postorder 0).reverse = [0] ++ 1 :: [2, 3] := by cbv
  have hrelink : relink (twoWays.numbers 0) twoWaysSources (twoWays.initialLinks 0) 1 = some twoWaysLinks := by cbv
  have hmoment : Moment twoWays twoWaysSources 0 [0, 1] twoWaysLinks := Moment.start.link horder hrelink
  have hbefore : meetAll (twoWays.numbers 0) twoWaysLinks [3, 1] = some (some 1) := by cbv
  have hmeets : Meets twoWays twoWaysSources 0 twoWaysLinks 2 0 1 := ⟨⟨0, rfl⟩, [3, 1], [], rfl, hbefore⟩
  obtain ⟨hall, links, hlinks, -⟩ := linking_settles hg hpreds hroot
  obtain ⟨w, hjoint, hmeet⟩ := (hall _ _ hmoment).2.2.2.1 2 0 1 hmeets
  have hzero : meet (twoWays.numbers 0) twoWaysLinks 10 0 1 = some 0 := by cbv
  obtain rfl : 0 = w := Option.some.inj (hzero.symm.trans (hmeet 10 (by decide)))
  exact ⟨hg, hpreds, hroot, hmoment, hmeets, hjoint, links, hlinks⟩

end Digraph
end FlowTree
