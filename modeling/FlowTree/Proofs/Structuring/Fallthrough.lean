import FlowTree.Proofs.Tree.Built

/-!
Which switch cases have an order. Cases that fall into each other have one unless two of them fall into the same case or
some of them fall into each other in a circle. Going back along the links from a case ends if and only if the case is on
no circle (`backEnds_iff`), so the first case from which it does not end is the first one on a circle. Without circles
falling on ends by itself before the cases run out, and the cases that none falls into stay in their order.
-/

namespace FlowTree
namespace SwitchArm

/-- The case with the one target falls into the case with the other. -/
def FallsInto (arms : List SwitchArm) (s t : BlockId) : Prop := ∃ a ∈ arms, a.target = s ∧ a.fallsInto? = some t

/-- Two cases fall into the same one. -/
def Shared (arms : List SwitchArm) : Prop :=
  ∃ a ∈ arms, ∃ b ∈ arms, a.target ≠ b.target ∧ a.fallsInto?.isSome ∧ b.fallsInto? = a.fallsInto?

instance (arms : List SwitchArm) : Decidable (Shared arms) := inferInstanceAs
  (Decidable (∃ a ∈ arms, ∃ b ∈ arms, a.target ≠ b.target ∧ a.fallsInto?.isSome ∧ b.fallsInto? = a.fallsInto?))

instance (arms : List SwitchArm) : Decidable (Wired arms) :=
  decidable_of_iff ((arms.map (·.target)).Nodup ∧ ∀ a ∈ arms, ∀ next ∈ a.fallsInto?, ∃ b ∈ arms, b.target = next)
    ⟨fun ⟨distinct, listed⟩ => ⟨distinct, listed⟩, fun h => ⟨h.distinct, h.listed⟩⟩

/-- Falling on from the case leads back to it. -/
def OnCircle (arms : List SwitchArm) (t : BlockId) : Prop := Relation.TransGen (FallsInto arms) t t

/-- No case falls into this one. -/
def isHead (arms : List SwitchArm) (a : SwitchArm) : Bool := arms.all (·.fallsInto? ≠ some a.target)

section
variable {arms : List SwitchArm} {links : List (BlockId × BlockId)}

theorem transGen_iff (hw : Wired arms) {s t : BlockId} :
    Relation.TransGen (FallsInto arms) s t ↔ ∃ n, follow arms (n + 1) s = some t := by
  constructor
  · intro h
    induction h with
    | single hst => exact ⟨0, by simpa [follow] using (next?_eq_some_iff hw).mpr hst⟩
    | tail _ htu ih =>
      obtain ⟨n, hn⟩ := ih
      exact ⟨n + 1, by rw [follow_succ, hn]; exact (next?_eq_some_iff hw).mpr htu⟩
  · rintro ⟨n, hn⟩
    induction n generalizing t with
    | zero => exact .single ((next?_eq_some_iff hw).mp (by simpa [follow] using hn))
    | succ n ih =>
      rw [follow_succ] at hn
      obtain ⟨r, hr, hrt⟩ := Option.bind_eq_some_iff.mp hn
      exact (ih hr).tail ((next?_eq_some_iff hw).mp hrt)

theorem OnCircle.listed {t : BlockId} (h : OnCircle arms t) : ∃ a ∈ arms, a.target = t := by
  obtain ⟨_, ⟨a, ha, htarget, -⟩, -⟩ := Relation.TransGen.head'_iff.mp h
  exact ⟨a, ha, htarget⟩

theorem follow_mul {t : BlockId} {p : Nat} (h : follow arms p t = some t) (k : Nat) : follow arms (k * p) t = some t := by
  induction k with
  | zero => simp [follow]
  | succ k ih => rw [Nat.succ_mul, follow_add, ih, Option.bind_some, h]

/-- No circle is longer than the list of cases. -/
theorem onCircle_iff_lt (hw : Wired arms) {t : BlockId} :
    OnCircle arms t ↔ ∃ p < arms.length, follow arms (p + 1) t = some t := by
  constructor
  · intro h
    obtain ⟨n, hn⟩ := (transGen_iff hw).mp h
    have hround := follow_mul hn arms.length
    exact exists_period hw h.listed hround (Nat.le_mul_of_pos_right _ (Nat.succ_pos n))
  · rintro ⟨p, -, hp⟩
    exact (transGen_iff hw).mpr ⟨p, hp⟩

/-- Falling on ends before the cases run out, or on a circle. -/
theorem follow_lt (hw : Wired arms) {n : Nat} {t r : BlockId} (ht : ∃ a ∈ arms, a.target = t)
    (hn : follow arms n t = some r) (hr : ¬OnCircle arms r) : n < arms.length := by
  by_contra hle
  exact hr ((onCircle_iff_lt hw).mpr (exists_period hw ht hn (Nat.le_of_not_lt hle)))

/-- Where going back has not ended, it has come from a case that leads here. -/
theorem exists_follow_of_backEnds (hw : Wired arms) (hl : LinksOf arms links) {steps : Nat} {t : BlockId}
    (h : backEnds links steps t = false) : ∃ s, (∃ a ∈ arms, a.target = s) ∧ follow arms (steps + 1) s = some t := by
  induction steps generalizing t with
  | zero =>
    unfold backEnds at h
    split at h
    · cases h
    · rename_i before hlookup _
      obtain ⟨a, ha, hfalls, htarget⟩ := hl.sound t before hlookup
      exact ⟨_, ⟨a, ha, htarget⟩, by simpa [follow] using (next?_eq_some_iff hw).mpr ⟨a, ha, htarget, hfalls⟩⟩
    · rename_i heq
      cases heq
  | succ steps ih =>
    unfold backEnds at h
    split at h
    · cases h
    · rename_i heq
      cases heq
    · rename_i before _ hlookup heq
      cases heq
      obtain ⟨a, ha, hfalls, htarget⟩ := hl.sound t before hlookup
      obtain ⟨s, hs, hfollow⟩ := ih h
      refine ⟨s, hs, ?_⟩
      rw [follow_succ, hfollow]
      exact (next?_eq_some_iff hw).mpr ⟨a, ha, htarget, hfalls⟩

/-- Going back ends within as many steps as there are cases just where it does not go round. -/
theorem backEnds_iff (hw : Wired arms) (hl : LinksOf arms links) {t : BlockId} (ht : ∃ a ∈ arms, a.target = t) :
    backEnds links arms.length t = true ↔ ¬OnCircle arms t := by
  constructor
  · intro hends hcircle
    -- A head leads to the case, and it would lead there again once round the circle.
    obtain ⟨a, -, hhead, k, hk⟩ := exists_head hw hl ht hends
    obtain ⟨n, hn⟩ := (transGen_iff hw).mp hcircle
    have hround : follow arms (k + (n + 1)) a.target = some t := by rw [follow_add, hk, Option.bind_some, hn]
    have := (hhead.unique hw hl hhead hk hround).2
    omega
  · intro hcircle
    by_contra hends
    obtain ⟨s, hs, hfollow⟩ := exists_follow_of_backEnds hw hl (Bool.eq_false_iff.mpr hends)
    have := follow_lt hw hs hfollow hcircle
    omega

theorem not_shared_of_backLinks (h : backLinks arms = .ok links) : ¬Shared arms := by
  rintro ⟨a, ha, b, hb, hne, hsome, heq⟩
  have hl := linksOf_of_backLinks h
  obtain ⟨next, hnext⟩ := Option.isSome_iff_exists.mp hsome
  have hfirst := hl.complete a ha next hnext
  have hsecond := hl.complete b hb next (heq.trans hnext)
  exact hne (Option.some.inj (hfirst.symm.trans hsecond))

/-- Links fail with a case that two others fall into. -/
theorem shared_of_backLinks (hw : Wired arms) {e : CaseOrderError} (h : backLinks arms = .error e) :
    Shared arms ∧ ∃ case first second, e = .shared case first second ∧ FallsInto arms first case ∧
      FallsInto arms second case ∧ first ≠ second := by
  obtain ⟨done, arm, rest, next, rfl, hfalls, other, hother, hnext, rfl⟩ := backLinks_error h
  have hmem : other ∈ done ++ arm :: rest := List.mem_append_left _ hother
  have hne : other.target ≠ arm.target := by
    have hdistinct := hw.distinct
    rw [List.map_append, List.map_cons, List.nodup_append'] at hdistinct
    exact fun heq => hdistinct.2.2 (List.mem_map_of_mem hother) (heq ▸ List.mem_cons_self)
  refine ⟨⟨other, hmem, arm, by simp, hne, by simp [hnext], hfalls.trans hnext.symm⟩, next, _, _, rfl, ?_, ?_, hne⟩
  · exact ⟨other, hmem, rfl, hnext⟩
  · exact ⟨arm, by simp, rfl, hfalls⟩

theorem order_of_shared (hw : Wired arms) (h : Shared arms) : ∃ case first second,
    order arms = .error (.shared case first second) ∧ FallsInto arms first case ∧ FallsInto arms second case ∧
      first ≠ second := by
  cases hlinks : backLinks arms with
  | ok links => exact absurd h (not_shared_of_backLinks hlinks)
  | error e =>
    obtain ⟨-, case, first, second, rfl, hfalls⟩ := shared_of_backLinks hw hlinks
    exact ⟨case, first, second, by rw [order, hlinks]; rfl, hfalls⟩

theorem exists_links (hw : Wired arms) (h : ¬Shared arms) : ∃ links, backLinks arms = .ok links ∧ LinksOf arms links := by
  cases hlinks : backLinks arms with
  | ok links => exact ⟨links, rfl, linksOf_of_backLinks hlinks⟩
  | error e => exact absurd (shared_of_backLinks hw hlinks).1 h

theorem order_of_circle (hw : Wired arms) (hshared : ¬Shared arms) (h : ∃ a ∈ arms, OnCircle arms a.target) :
    ∃ before a after, arms = before ++ a :: after ∧ OnCircle arms a.target ∧
      (∀ b ∈ before, ¬OnCircle arms b.target) ∧ order arms = .error (.circle a.target) := by
  obtain ⟨links, hlinks, hl⟩ := exists_links hw hshared
  have hends : ∀ a ∈ arms, backEnds links arms.length a.target = true ↔ ¬OnCircle arms a.target :=
    fun a ha => backEnds_iff hw hl ⟨a, ha, rfl⟩
  obtain ⟨a, hfirst⟩ : ∃ a, arms.find? (fun arm => !backEnds links arms.length arm.target) = some a := by
    obtain ⟨a, ha, hcircle⟩ := h
    refine Option.isSome_iff_exists.mp (List.find?_isSome.mpr ⟨a, ha, ?_⟩)
    simpa using mt (hends a ha).mp (not_not_intro hcircle)
  obtain ⟨hcircle, before, after, harms, hbefore⟩ := List.find?_eq_some_iff_append.mp hfirst
  have hmem : ∀ b, b ∈ before ++ a :: after → b ∈ arms := fun b hb => harms ▸ hb
  refine ⟨before, a, after, harms, ?_, fun b hb => ?_, by simp [order, hlinks, bind, Except.bind, hfirst]⟩
  · by_contra hnot
    simp [(hends a (hmem a (by simp))).mpr hnot] at hcircle
  · exact (hends b (hmem b (by simp [hb]))).mp (by simpa using hbefore b hb)

/-! ### Cases in order -/

theorem isHead_iff (hl : LinksOf arms links) {a : SwitchArm} : isHead arms a = (links.lookup a.target).isNone := by
  rw [Bool.eq_iff_iff, Option.isNone_iff_eq_none, isHead, List.all_eq_true]
  constructor
  · intro hnone
    by_contra hsome
    obtain ⟨t, ht⟩ := Option.ne_none_iff_exists'.mp hsome
    obtain ⟨b, hb, hfalls, -⟩ := hl.sound _ t ht
    simpa [hfalls] using hnone b hb
  · intro hnone b hb
    refine decide_eq_true fun hfalls => ?_
    rw [hl.complete b hb _ hfalls] at hnone
    cases hnone

/-- The head of a chain is the only head on it. -/
theorem Head.filter_chain (hw : Wired arms) (hl : LinksOf arms links) {a : SwitchArm} (ha : a ∈ arms)
    (hh : Head links a.target) : (chain arms arms.length a.target).filter (isHead arms) = [a] := by
  have hfind : find? arms a.target = some a := (find?_eq_some_iff hw).mpr ⟨ha, rfl⟩
  have hfirst : (chain arms arms.length a.target)[0]? = some a := by
    rw [hh.getElem?_chain hw hl ⟨a, ha, rfl⟩, follow, Option.bind_some, hfind]
  obtain ⟨rest, hchain⟩ : ∃ rest, chain arms arms.length a.target = a :: rest := by
    cases hchain : chain arms arms.length a.target with
    | nil => simp [hchain] at hfirst
    | cons b rest => exact ⟨rest, by simpa [hchain] using hfirst⟩
  have hrest : rest.filter (isHead arms) = [] := by
    rw [List.filter_eq_nil_iff]
    intro b hb hhead
    obtain ⟨i, hi⟩ := List.mem_iff_getElem?.mp hb
    have hi : (chain arms arms.length a.target)[i + 1]? = some b := by rw [hchain, List.getElem?_cons_succ, hi]
    rw [hh.getElem?_chain hw hl ⟨a, ha, rfl⟩] at hi
    obtain ⟨r, hr, hb⟩ := Option.bind_eq_some_iff.mp hi
    obtain ⟨-, rfl⟩ := (find?_eq_some_iff hw).mp hb
    rw [isHead_iff hl, Option.isNone_iff_eq_none] at hhead
    exact Head.not_followed hw hl hhead hr
  rw [hchain, List.filter_cons, hrest, isHead_iff hl, if_pos (Option.isNone_iff_eq_none.mpr hh)]

theorem order_of_falls (hw : Wired arms) (hshared : ¬Shared arms) (hcircle : ∀ a ∈ arms, ¬OnCircle arms a.target) :
    ∃ ordered, order arms = .ok ordered ∧ ordered.filter (isHead arms) = arms.filter (isHead arms) := by
  obtain ⟨links, hlinks, hl⟩ := exists_links hw hshared
  have hnone : arms.find? (fun arm => !backEnds links arms.length arm.target) = none := by
    rw [List.find?_eq_none]
    intro a ha
    simp [(backEnds_iff hw hl ⟨a, ha, rfl⟩).mpr (hcircle a ha)]
  have hheads : (arms.filter fun arm => (links.lookup arm.target).isNone) = arms.filter (isHead arms) :=
    List.filter_congr fun a _ => (isHead_iff hl).symm
  refine ⟨(arms.filter (isHead arms)).flatMap fun arm => chain arms arms.length arm.target, ?_, ?_⟩
  · simp only [order, hlinks, bind, Except.bind, hnone, hheads]
  rw [List.filter_flatMap, List.flatMap_congr (g := fun a => [a])]
  · simp
  · intro a ha
    obtain ⟨ha, hhead⟩ := List.mem_filter.mp ha
    rw [isHead_iff hl, Option.isNone_iff_eq_none] at hhead
    exact Head.filter_chain hw hl ha hhead

/-- Where no case is on a circle, following the cases from one of them ends by itself. -/
theorem chain_eq (hw : Wired arms) (hcircle : ∀ a ∈ arms, ¬OnCircle arms a.target) {a : SwitchArm} (ha : a ∈ arms)
    {count : Nat} (hcount : arms.length ≤ count) : chain arms count a.target = chain arms arms.length a.target := by
  refine List.ext_getElem? fun i => ?_
  rw [getElem?_chain, getElem?_chain]
  cases hfollow : follow arms i a.target with
  | none => simp
  | some r =>
    obtain ⟨b, hb, htarget⟩ := mem_of_follow hw ⟨a, ha, rfl⟩ hfollow
    have hlt := follow_lt hw ⟨a, ha, rfl⟩ hfollow (htarget ▸ hcircle b hb)
    rw [if_pos hlt, if_pos (by omega)]

end

end SwitchArm

/-! ### The order of cases in a graph -/

open SwitchArm

namespace Structuring
variable {g : FlowGraph} {arms : List SwitchArm}

theorem orderCases_error (hg : g.Linked) (hwired : Wired arms) (hblocks : ∀ a ∈ arms, a.target < g.size)
    {e : CaseOrderError} (h : order arms = .error e) (d : Draft) :
    orderCases g arms d = .error (.rejected (caseRejection g e)) d := by
  have hends : Ends (orderCases g arms) d (fun _ _ => False)
      fun halt d' => halt = .rejected (caseRejection g e) ∧ d' = d := by
    refine orderCases_ends hg hwired hblocks (fun ordered hok => ?_) fun e' he => ?_
    · rw [h] at hok
      cases hok
    · rw [h] at he
      cases he
      exact ⟨rfl, rfl⟩
  unfold Ends at hends
  split at hends
  · exact hends.elim
  · rename_i hrun
    rw [hrun, hends.1, hends.2]

theorem orderCases_ok {ordered : List SwitchArm} (h : order arms = .ok ordered) (d : Draft) :
    orderCases g arms d = .ok ordered d := by
  unfold orderCases
  rw [h]
  rfl

end Structuring

/-- The order of switch cases. Where two cases fall into the same one, the control flow is rejected as unstructured at
such a case, with two cases that fall into it. Where none do but some fall into each other in a circle, it is rejected at
the first case that is on a circle. Otherwise an order is found: the same cases, each directly before the one that it falls
into, and those that none falls into as they were. No chain of cases then goes on beyond their number, so the bound on it
never cuts one short. -/
theorem cases_follow_falls {f : Function} {g : FlowGraph} (accepted : FlowGraph.build f = .ok g) {arms : List SwitchArm}
    (hwired : Wired arms) (hblocks : ∀ a ∈ arms, a.target < g.size) (d : Draft) :
    (Shared arms → ∃ case first second, FallsInto arms first case ∧ FallsInto arms second case ∧ first ≠ second ∧
      Structuring.orderCases g arms d = .error (.rejected (.atBlock g .unstructured case
        "more than one case falls through into this case" [first, second])) d) ∧
    (¬Shared arms → (∃ a ∈ arms, OnCircle arms a.target) → ∃ before a after, arms = before ++ a :: after ∧
      OnCircle arms a.target ∧ (∀ b ∈ before, ¬OnCircle arms b.target) ∧
      Structuring.orderCases g arms d = .error (.rejected (.atBlock g .caseLoop a.target "" [])) d) ∧
    (¬Shared arms → (∀ a ∈ arms, ¬OnCircle arms a.target) → ∃ ordered, Structuring.orderCases g arms d = .ok ordered d ∧
      ordered.Perm arms ∧ Direct ordered ∧ ordered.filter (isHead arms) = arms.filter (isHead arms) ∧
      ∀ a ∈ arms, ∀ count, arms.length ≤ count → chain arms count a.target = chain arms arms.length a.target) := by
  have hg := FlowGraph.build_linked accepted
  refine ⟨fun hshared => ?_, fun hshared hcircle => ?_, fun hshared hcircle => ?_⟩
  · obtain ⟨case, first, second, horder, hfirst, hsecond, hne⟩ := order_of_shared hwired hshared
    exact ⟨case, first, second, hfirst, hsecond, hne, Structuring.orderCases_error hg hwired hblocks horder d⟩
  · obtain ⟨before, a, after, harms, ha, hbefore, horder⟩ := order_of_circle hwired hshared hcircle
    exact ⟨before, a, after, harms, ha, hbefore, Structuring.orderCases_error hg hwired hblocks horder d⟩
  · obtain ⟨ordered, horder, hheads⟩ := order_of_falls hwired hshared hcircle
    obtain ⟨hperm, hdirect⟩ := order_ok hwired horder
    exact ⟨ordered, Structuring.orderCases_ok horder d, hperm, hdirect, hheads,
      fun a ha count hcount => chain_eq hwired hcircle ha hcount⟩

/-- A switch with four cases. -/
def fourCasesSample : Function where
  name := "four_cases"
  instructions := [
    { op := .label, result := 1 }, { op := .selectionMerge, operands := [.ofId 6] },
    { op := .switch, operands := [.ofId 9, .ofId 5, .ofLiteral 1, .ofId 2, .ofLiteral 2, .ofId 3, .ofLiteral 3, .ofId 4] },
    { op := .label, result := 2 }, { op := .branch, operands := [.ofId 6] },
    { op := .label, result := 3 }, { op := .branch, operands := [.ofId 6] },
    { op := .label, result := 4 }, { op := .branch, operands := [.ofId 6] },
    { op := .label, result := 5 }, { op := .branch, operands := [.ofId 6] },
    { op := .label, result := 6 }, { op := .return }]

/-- Cases that start at the blocks from the first one on, given by what they fall into. -/
def casesFalling (falls : List (Option BlockId)) : List SwitchArm :=
  falls.zipIdx.map fun (fallsInto?, b) => ⟨b + 1, [], {}, fallsInto?⟩

/-- Two cases fall into the third one; a circle stands behind a chain; and two chains, the second of which leads to the
first case. -/
theorem cases_follow_falls_samples : ∃ g, FlowGraph.build fourCasesSample = .ok g ∧ ∀ d,
    (∃ arms, arms = casesFalling [some 3, some 3, none] ∧ Wired arms ∧ Shared arms ∧ ∃ case first second,
      FallsInto arms first case ∧ FallsInto arms second case ∧ first ≠ second ∧
      Structuring.orderCases g arms d = .error (.rejected (.atBlock g .unstructured case
        "more than one case falls through into this case" [first, second])) d) ∧
    (∃ arms, arms = casesFalling [some 2, none, some 4, some 3] ∧ Wired arms ∧ ¬Shared arms ∧ OnCircle arms 3 ∧
      ∃ before a after, arms = before ++ a :: after ∧ OnCircle arms a.target ∧ (∀ b ∈ before, ¬OnCircle arms b.target) ∧
      Structuring.orderCases g arms d = .error (.rejected (.atBlock g .caseLoop a.target "" [])) d) ∧
    ∃ arms, arms = casesFalling [none, some 4, some 1, none] ∧ Wired arms ∧ ¬Shared arms ∧
      (∀ a ∈ arms, ¬OnCircle arms a.target) ∧ ∃ ordered, Structuring.orderCases g arms d = .ok ordered d ∧
      ordered.Perm arms ∧ Direct ordered ∧ ordered.filter (isHead arms) = arms.filter (isHead arms) := by
  have hchecked : hasGraph fourCasesSample (fun g => g.size = 6) = true := by decide +kernel
  obtain ⟨g, hbuild, hsize⟩ := exists_of_hasGraph hchecked
  have hsize : g.size = 6 := of_decide_eq_true hsize
  have hshared : Wired (casesFalling [some 3, some 3, none]) := by decide
  have hcircle : Wired (casesFalling [some 2, none, some 4, some 3]) := by decide
  have hchains : Wired (casesFalling [none, some 4, some 1, none]) := by decide
  have hround : OnCircle (casesFalling [some 2, none, some 4, some 3]) 3 :=
    (onCircle_iff_lt hcircle).mpr (by decide)
  have hends : ∀ a ∈ casesFalling [none, some 4, some 1, none],
      ¬OnCircle (casesFalling [none, some 4, some 1, none]) a.target := by
    simp only [onCircle_iff_lt hchains]
    decide
  refine ⟨g, hbuild, fun d => ⟨⟨_, rfl, hshared, by decide, ?_⟩, ⟨_, rfl, hcircle, by decide, hround, ?_⟩,
    ⟨_, rfl, hchains, by decide, hends, ?_⟩⟩⟩
  · exact (cases_follow_falls hbuild hshared (by rw [hsize]; decide) d).1 (by decide)
  · exact (cases_follow_falls hbuild hcircle (by rw [hsize]; decide) d).2.1 (by decide)
      ⟨⟨3, [], {}, some 4⟩, by decide, hround⟩
  · obtain ⟨ordered, horder, hperm, hdirect, hheads, -⟩ :=
      (cases_follow_falls hbuild hchains (by rw [hsize]; decide) d).2.2 (by decide) hends
    exact ⟨ordered, horder, hperm, hdirect, hheads⟩

end FlowTree
