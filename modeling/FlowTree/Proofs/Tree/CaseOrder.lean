import FlowTree.Proofs.Sequences
import FlowTree.Tree.CaseOrder
import Mathlib.Data.List.FinRange
import Mathlib.Data.List.Nodup
import Mathlib.Data.List.Perm.Subperm

/-!
The order of switch cases. Falling into a case is a partial map of the targets of the cases that goes to no
target twice, once the links back have been made. So following it from a case that none falls into never
comes back, and it ends before the cases run out; a case from which going back ends is on exactly one of
these chains. The chains together are the cases in another order, each directly before the one it falls into.
-/

namespace FlowTree
namespace SwitchArm

/-- The cases have distinct targets and fall into each other only. -/
structure Wired (arms : List SwitchArm) : Prop where
  distinct : (arms.map (·.target)).Nodup
  listed : ∀ a ∈ arms, ∀ next, a.fallsInto? = some next → ∃ b ∈ arms, b.target = next

/-- Every case is directly before the one that it falls into. -/
def Direct (arms : List SwitchArm) : Prop :=
  ∀ i a next, arms[i]? = some a → a.fallsInto? = some next → ∃ b, arms[i + 1]? = some b ∧ b.target = next

section Links
variable {arms : List SwitchArm} {links : List (BlockId × BlockId)}

/-- The links lead from each case that another falls into to the one that does. -/
structure LinksOf (arms : List SwitchArm) (links : List (BlockId × BlockId)) : Prop where
  complete : ∀ a ∈ arms, ∀ next, a.fallsInto? = some next → links.lookup next = some a.target
  sound : ∀ next t, links.lookup next = some t → ∃ a ∈ arms, a.fallsInto? = some next ∧ a.target = t

theorem linksOf_step {done : List SwitchArm} {arm : SwitchArm} {links' : List (BlockId × BlockId)}
    (h : LinksOf done links) (hstep : linkBack links arm = .ok links') : LinksOf (done ++ [arm]) links' := by
  unfold linkBack at hstep
  cases hfalls : arm.fallsInto? with
  | none =>
    simp only [hfalls, Except.ok.injEq] at hstep
    subst hstep
    refine ⟨fun a ha next hnext => ?_, fun next t ht => ?_⟩
    · rcases List.mem_append.mp ha with ha | ha
      · exact h.complete a ha next hnext
      · rw [List.mem_singleton.mp ha, hfalls] at hnext
        cases hnext
    · obtain ⟨a, ha, hnext⟩ := h.sound next t ht
      exact ⟨a, List.mem_append_left _ ha, hnext⟩
  | some into =>
    -- A case that has a link already is an error, so the link that is added is the only one to it.
    cases hlookup : links.lookup into with
    | some other => simp [hfalls, hlookup] at hstep
    | none =>
      simp only [hfalls, hlookup, Except.ok.injEq] at hstep
      subst hstep
      refine ⟨fun a ha next hnext => ?_, fun next t ht => ?_⟩
      · rw [List.lookup_append]
        rcases List.mem_append.mp ha with ha | ha
        · simp [h.complete a ha next hnext]
        · rw [List.mem_singleton.mp ha] at hnext ⊢
          rw [hfalls] at hnext
          cases hnext
          simp [hlookup]
      · rw [List.lookup_append] at ht
        cases hold : links.lookup next with
        | some t' =>
          simp only [hold, Option.some_or, Option.some.injEq] at ht
          subst ht
          obtain ⟨a, ha, hnext⟩ := h.sound next t' hold
          exact ⟨a, List.mem_append_left _ ha, hnext⟩
        | none =>
          have hnext : next = into ∧ arm.target = t := by
            by_cases hne : next = into
            · subst hne
              simpa [hold] using ht
            · have hbeq : (next == into) = false := by simpa using hne
              simp [hold, List.lookup_cons, hbeq] at ht
          exact ⟨arm, List.mem_append_right _ (List.mem_singleton_self arm), hnext.1 ▸ hfalls, hnext.2⟩

theorem linksOf_of_backLinks (h : backLinks arms = .ok links) : LinksOf arms links := by
  have key : ∀ (rest done : List SwitchArm) (links₀ : List (BlockId × BlockId)), LinksOf done links₀ →
      rest.foldlM linkBack links₀ = .ok links → LinksOf (done ++ rest) links := by
    intro rest
    induction rest with
    | nil =>
      intro done links₀ h₀ h
      cases h
      simpa using h₀
    | cons arm rest ih =>
      intro done links₀ h₀ h
      rw [List.foldlM_cons] at h
      obtain ⟨links₁, hstep, h⟩ := Except.bind_eq_ok_iff.mp h
      simpa using ih (done ++ [arm]) links₁ (linksOf_step h₀ hstep) h
  simpa using key arms [] [] ⟨by simp, by simp⟩ h

end Links

/-! ### Following the cases -/

/-- The case that the case with the given target falls into. -/
def next? (arms : List SwitchArm) (t : BlockId) : Option BlockId := (find? arms t).bind (·.fallsInto?)

/-- The case that a number of falls lead to. -/
def follow (arms : List SwitchArm) : Nat → BlockId → Option BlockId
  | 0, t => some t
  | n + 1, t => (next? arms t).bind (follow arms n)

section Follow
variable {arms : List SwitchArm}

theorem find?_eq_some_iff (hw : Wired arms) {t : BlockId} {a : SwitchArm} :
    find? arms t = some a ↔ a ∈ arms ∧ a.target = t := by
  constructor
  · intro h
    exact ⟨List.mem_of_find?_eq_some h, by simpa using List.find?_some h⟩
  · rintro ⟨ha, rfl⟩
    obtain ⟨b, hb⟩ : ∃ b, find? arms a.target = some b :=
      Option.isSome_iff_exists.mp (List.find?_isSome.mpr ⟨a, ha, by simp⟩)
    have hmem : b ∈ arms ∧ b.target = a.target := ⟨List.mem_of_find?_eq_some hb, by simpa using List.find?_some hb⟩
    rw [hb, List.inj_on_of_nodup_map hw.distinct hmem.1 ha hmem.2]

theorem next?_eq_some_iff (hw : Wired arms) {t next : BlockId} :
    next? arms t = some next ↔ ∃ a ∈ arms, a.target = t ∧ a.fallsInto? = some next := by
  simp only [next?, Option.bind_eq_some_iff, find?_eq_some_iff hw, and_assoc]

theorem follow_add (m n : Nat) (t : BlockId) : follow arms (m + n) t = (follow arms m t).bind (follow arms n) := by
  induction m generalizing t with
  | zero => simp [follow]
  | succ m ih =>
    rw [Nat.add_right_comm, follow, follow]
    cases next? arms t with
    | none => rfl
    | some next => exact ih next

theorem follow_succ (n : Nat) (t : BlockId) : follow arms (n + 1) t = (follow arms n t).bind (next? arms) := by
  rw [follow_add]
  congr 1
  funext s
  simp [follow]

/-- Where a case falls into another, that one is a case too. -/
theorem mem_of_follow (hw : Wired arms) {n : Nat} {t s : BlockId} (ht : ∃ a ∈ arms, a.target = t)
    (h : follow arms n t = some s) : ∃ a ∈ arms, a.target = s := by
  cases n with
  | zero =>
    cases h
    exact ht
  | succ n =>
    rw [follow_succ] at h
    obtain ⟨r, -, hr⟩ := Option.bind_eq_some_iff.mp h
    obtain ⟨a, ha, -, hfalls⟩ := (next?_eq_some_iff hw).mp hr
    exact hw.listed a ha s hfalls

/-- A chain lists what following leads to. -/
theorem getElem?_chain (k i : Nat) (t : BlockId) :
    (chain arms k t)[i]? = if i < k then (follow arms i t).bind (find? arms) else none := by
  induction k generalizing i t with
  | zero => simp [chain]
  | succ k ih =>
    unfold chain
    cases hfind : find? arms t with
    | none =>
      cases i with
      | zero => simp [follow, hfind]
      | succ i => simp [follow, next?, hfind]
    | some arm =>
      cases i with
      | zero => simp [follow, hfind]
      | succ i =>
        cases hfalls : arm.fallsInto? with
        | none => simp [follow, next?, hfind, hfalls]
        | some next => simp [follow, next?, hfind, hfalls, ih]

/-- What falling on from a case on a circle leads to comes round in as many steps. -/
theorem follow_period {m p : Nat} {t r : BlockId} (hm : follow arms m t = some r) (hp : follow arms p t = some t) :
    follow arms p r = some r := by
  have hafter : follow arms (m + p) t = follow arms p r := by rw [follow_add, hm, Option.bind_some]
  rw [← hafter, Nat.add_comm, follow_add, hp, Option.bind_some, hm]

/-- Falling on as often as there are cases comes to a case twice, and so ends on a circle. -/
theorem exists_period (hw : Wired arms) {n : Nat} {t r : BlockId} (ht : ∃ a ∈ arms, a.target = t)
    (hn : follow arms n t = some r) (hle : arms.length ≤ n) : ∃ p < arms.length, follow arms (p + 1) r = some r := by
  have hway : ∀ i : Fin (arms.length + 1), ∃ s, follow arms i t = some s ∧ ∃ k, follow arms k s = some r := fun i => by
    obtain ⟨k, rfl⟩ := Nat.exists_eq_add_of_le (Nat.le_trans (Nat.lt_succ_iff.mp i.isLt) hle)
    rw [follow_add] at hn
    obtain ⟨s, hs, hk⟩ := Option.bind_eq_some_iff.mp hn
    exact ⟨s, hs, k, hk⟩
  choose way hway hrest using hway
  -- There are more steps than cases, so that one of these is passed twice.
  have hrepeats : ∃ i j : Fin (arms.length + 1), i < j ∧ way i = way j := by
    by_contra hnone
    have hinj : Function.Injective way := fun i j hij => by
      rcases lt_trichotomy i j with hlt | heq | hlt
      · exact absurd ⟨i, j, hlt, hij⟩ hnone
      · exact heq
      · exact absurd ⟨j, i, hlt, hij.symm⟩ hnone
    have hsub : List.ofFn way ⊆ arms.map (·.target) := fun s hs => by
      obtain ⟨i, rfl⟩ := List.mem_ofFn.mp hs
      obtain ⟨a, ha, htarget⟩ := mem_of_follow hw ht (hway i)
      exact List.mem_map.mpr ⟨a, ha, htarget⟩
    have := (List.nodup_ofFn.mpr hinj).subperm hsub |>.length_le
    simp only [List.length_ofFn, List.length_map] at this
    omega
  obtain ⟨i, j, hij, heq⟩ := hrepeats
  obtain ⟨p, hp⟩ : ∃ p, (j : Nat) = i + (p + 1) := Nat.exists_eq_add_of_lt hij
  have hcircle : follow arms (p + 1) (way i) = some (way i) := by
    have hj := hway j
    rwa [hp, follow_add, hway i, Option.bind_some, ← heq] at hj
  obtain ⟨k, hk⟩ := hrest i
  exact ⟨p, by omega, follow_period hk hcircle⟩

end Follow

/-! ### Chains -/

section Chains
variable {arms : List SwitchArm} {links : List (BlockId × BlockId)}

/-- No two cases fall into the same one. -/
theorem next?_injective (hw : Wired arms) (hl : LinksOf arms links) {s t r : BlockId} (hs : next? arms s = some r)
    (ht : next? arms t = some r) : s = t := by
  obtain ⟨a, ha, rfl, hfalls⟩ := (next?_eq_some_iff hw).mp hs
  obtain ⟨b, hb, rfl, hfalls'⟩ := (next?_eq_some_iff hw).mp ht
  have := (hl.complete a ha r hfalls).symm.trans (hl.complete b hb r hfalls')
  exact Option.some.inj this

theorem follow_injective (hw : Wired arms) (hl : LinksOf arms links) {n : Nat} {s t r : BlockId}
    (hs : follow arms n s = some r) (ht : follow arms n t = some r) : s = t := by
  induction n generalizing r with
  | zero =>
    cases hs
    cases ht
    rfl
  | succ n ih =>
    rw [follow_succ] at hs ht
    obtain ⟨s', hs', hs⟩ := Option.bind_eq_some_iff.mp hs
    obtain ⟨t', ht', ht⟩ := Option.bind_eq_some_iff.mp ht
    have := next?_injective hw hl hs ht
    subst this
    exact ih hs' ht'

/-- A case that no other falls into. -/
def Head (links : List (BlockId × BlockId)) (t : BlockId) : Prop := links.lookup t = none

theorem Head.not_followed (hw : Wired arms) (hl : LinksOf arms links) {h t : BlockId} (hh : Head links h) {n : Nat}
    (hn : follow arms (n + 1) t = some h) : False := by
  rw [follow_succ] at hn
  obtain ⟨s, -, hs⟩ := Option.bind_eq_some_iff.mp hn
  obtain ⟨a, ha, -, hfalls⟩ := (next?_eq_some_iff hw).mp hs
  have := hl.complete a ha h hfalls
  rw [hh] at this
  cases this

/-- Following from two heads leads to the same case only from the same head and in as many steps. -/
theorem Head.unique (hw : Wired arms) (hl : LinksOf arms links) {h h' r : BlockId} (hh : Head links h)
    (hh' : Head links h') {m n : Nat} (hm : follow arms m h = some r) (hn : follow arms n h' = some r) :
    h = h' ∧ m = n := by
  wlog hle : m ≤ n generalizing h h' m n
  · obtain ⟨h1, h2⟩ := this hh' hh hn hm (by omega)
    exact ⟨h1.symm, h2.symm⟩
  obtain ⟨k, rfl⟩ := Nat.exists_eq_add_of_le' hle
  rw [follow_add] at hn
  obtain ⟨s, hs, hsr⟩ := Option.bind_eq_some_iff.mp hn
  have := follow_injective hw hl hm hsr
  subst this
  cases k with
  | zero =>
    cases hs
    exact ⟨rfl, (Nat.zero_add m).symm⟩
  | succ k => exact (hh.not_followed hw hl hs).elim

/-- Going back from a case leads to a head. -/
theorem exists_head (hw : Wired arms) (hl : LinksOf arms links) {n : Nat} {t : BlockId} (ht : ∃ a ∈ arms, a.target = t)
    (h : backEnds links n t = true) : ∃ a ∈ arms, Head links a.target ∧ ∃ k, follow arms k a.target = some t := by
  induction n generalizing t with
  | zero =>
    unfold backEnds at h
    split at h
    · obtain ⟨a, ha, rfl⟩ := ht
      exact ⟨a, ha, ‹_›, 0, rfl⟩
    · cases h
    · rename_i heq
      cases heq
  | succ n ih =>
    unfold backEnds at h
    split at h
    · obtain ⟨a, ha, rfl⟩ := ht
      exact ⟨a, ha, ‹_›, 0, rfl⟩
    · cases h
    · rename_i before _ hlookup heq
      cases heq
      obtain ⟨b, hb, hfalls, htarget⟩ := hl.sound t before hlookup
      obtain ⟨a, ha, hhead, k, hk⟩ := ih ⟨b, hb, htarget⟩ h
      refine ⟨a, ha, hhead, k + 1, ?_⟩
      rw [follow_succ, hk]
      exact (next?_eq_some_iff hw).mpr ⟨b, hb, htarget, hfalls⟩

/-- Following from a head ends before the cases run out, for it does not come to a circle. -/
theorem Head.follow_lt (hw : Wired arms) (hl : LinksOf arms links) {h r : BlockId} (hh : Head links h)
    (hmem : ∃ a ∈ arms, a.target = h) {n : Nat} (hn : follow arms n h = some r) : n < arms.length := by
  by_contra hle
  obtain ⟨p, -, hp⟩ := exists_period hw hmem hn (Nat.le_of_not_lt hle)
  have hround : follow arms (n + (p + 1)) h = some r := by rw [follow_add, hn, Option.bind_some, hp]
  have := (hh.unique hw hl hh hn hround).2
  omega

/-- The cases of a chain from a head are those that following it leads to. -/
theorem Head.getElem?_chain (hw : Wired arms) (hl : LinksOf arms links) {h : BlockId} (hh : Head links h)
    (hmem : ∃ a ∈ arms, a.target = h) (i : Nat) :
    (chain arms arms.length h)[i]? = (follow arms i h).bind (find? arms) := by
  rw [SwitchArm.getElem?_chain]
  split
  · rfl
  · cases hf : follow arms i h with
    | none => rfl
    | some r => exact absurd (hh.follow_lt hw hl hmem hf) ‹_›

theorem Head.mem_chain_iff (hw : Wired arms) (hl : LinksOf arms links) {h : BlockId} (hh : Head links h)
    (hmem : ∃ a ∈ arms, a.target = h) {b : SwitchArm} :
    b ∈ chain arms arms.length h ↔ b ∈ arms ∧ ∃ k, follow arms k h = some b.target := by
  rw [List.mem_iff_getElem?]
  simp only [hh.getElem?_chain hw hl hmem, Option.bind_eq_some_iff, find?_eq_some_iff hw]
  constructor
  · rintro ⟨k, r, hk, hb, rfl⟩
    exact ⟨hb, k, hk⟩
  · rintro ⟨hb, k, hk⟩
    exact ⟨k, b.target, hk, hb, rfl⟩

theorem Head.nodup_chain (hw : Wired arms) (hl : LinksOf arms links) {h : BlockId} (hh : Head links h)
    (hmem : ∃ a ∈ arms, a.target = h) : (chain arms arms.length h).Nodup := by
  rw [List.nodup_iff_getElem?_ne_getElem?]
  intro i j hij hj heq
  obtain ⟨b, hb⟩ : ∃ b, (chain arms arms.length h)[j]? = some b := ⟨_, List.getElem?_eq_getElem hj⟩
  rw [hb, hh.getElem?_chain hw hl hmem] at heq
  rw [hh.getElem?_chain hw hl hmem] at hb
  obtain ⟨r, hr, hrb⟩ := Option.bind_eq_some_iff.mp heq
  obtain ⟨s, hs, hsb⟩ := Option.bind_eq_some_iff.mp hb
  have hrs : r = s := ((find?_eq_some_iff hw).mp hrb).2.symm.trans ((find?_eq_some_iff hw).mp hsb).2
  have := (hh.unique hw hl hh hr (hrs ▸ hs)).2
  omega

theorem Head.direct_chain (hw : Wired arms) (hl : LinksOf arms links) {h : BlockId} (hh : Head links h)
    (hmem : ∃ a ∈ arms, a.target = h) : Direct (chain arms arms.length h) := by
  intro i a next ha hfalls
  rw [hh.getElem?_chain hw hl hmem] at ha
  obtain ⟨r, hr, hfind⟩ := Option.bind_eq_some_iff.mp ha
  obtain ⟨ha, rfl⟩ := (find?_eq_some_iff hw).mp hfind
  obtain ⟨b, hb, rfl⟩ := hw.listed a ha next hfalls
  refine ⟨b, ?_, rfl⟩
  rw [hh.getElem?_chain hw hl hmem, follow_succ, hr]
  have hnext : next? arms a.target = some b.target := (next?_eq_some_iff hw).mpr ⟨a, ha, rfl, hfalls⟩
  rw [Option.bind_some, hnext]
  exact (find?_eq_some_iff hw).mpr ⟨hb, rfl⟩

end Chains

theorem Direct.append {xs ys : List SwitchArm} (hx : Direct xs) (hy : Direct ys) : Direct (xs ++ ys) := by
  intro i a next ha hfalls
  rw [List.getElem?_append] at ha
  split at ha
  · obtain ⟨b, hb, htarget⟩ := hx i a next ha hfalls
    have hlt : i + 1 < xs.length := (List.getElem?_eq_some_iff.mp hb).1
    exact ⟨b, by rw [List.getElem?_append_left hlt]; exact hb, htarget⟩
  · obtain ⟨b, hb, htarget⟩ := hy (i - xs.length) a next ha hfalls
    refine ⟨b, ?_, htarget⟩
    rw [List.getElem?_append_right (by omega), ← hb]
    congr 1
    omega

theorem Direct.flatMap {α : Type} {f : α → List SwitchArm} {items : List α} (h : ∀ x ∈ items, Direct (f x)) :
    Direct (items.flatMap f) := by
  induction items with
  | nil => simp [Direct]
  | cons x items ih =>
    obtain ⟨hx, hrest⟩ := List.forall_mem_cons.mp h
    exact hx.append (ih hrest)

/-- Ordered cases are the same cases, each directly before the one it falls into. -/
theorem order_ok {arms ordered : List SwitchArm} (hw : Wired arms) (h : order arms = .ok ordered) :
    ordered.Perm arms ∧ Direct ordered := by
  obtain ⟨links, hlinks, h⟩ := Except.bind_eq_ok_iff.mp h
  have hl := linksOf_of_backLinks hlinks
  split at h
  · cases h
  · rename_i hends
    cases h
    have hends : ∀ a ∈ arms, backEnds links arms.length a.target = true := by simpa using hends
    have hheads : ∀ a, a ∈ arms.filter (fun arm => (links.lookup arm.target).isNone) ↔
        a ∈ arms ∧ Head links a.target := by simp [Head]
    have harms : arms.Nodup := hw.distinct.of_map _
    refine ⟨(List.perm_ext_iff_of_nodup ?_ harms).mpr fun b => ?_, Direct.flatMap fun a ha => ?_⟩
    · rw [List.nodup_flatMap]
      refine ⟨fun a ha => ?_, (harms.filter _).pairwise_of_forall_ne fun a ha b hb hne => ?_⟩
      · obtain ⟨ha, hhead⟩ := (hheads a).mp ha
        exact hhead.nodup_chain hw hl ⟨a, ha, rfl⟩
      · obtain ⟨ha, hhead⟩ := (hheads a).mp ha
        obtain ⟨hb, hhead'⟩ := (hheads b).mp hb
        intro c hc hc'
        obtain ⟨-, m, hm⟩ := (hhead.mem_chain_iff hw hl ⟨a, ha, rfl⟩).mp hc
        obtain ⟨-, n, hn⟩ := (hhead'.mem_chain_iff hw hl ⟨b, hb, rfl⟩).mp hc'
        exact hne (List.inj_on_of_nodup_map hw.distinct ha hb (hhead.unique hw hl hhead' hm hn).1)
    · rw [List.mem_flatMap]
      constructor
      · rintro ⟨a, ha, hb⟩
        obtain ⟨ha, hhead⟩ := (hheads a).mp ha
        exact ((hhead.mem_chain_iff hw hl ⟨a, ha, rfl⟩).mp hb).1
      · intro hb
        obtain ⟨a, ha, hhead, k, hk⟩ := exists_head hw hl ⟨b, hb, rfl⟩ (hends b hb)
        exact ⟨a, (hheads a).mpr ⟨ha, hhead⟩, (hhead.mem_chain_iff hw hl ⟨a, ha, rfl⟩).mpr ⟨hb, k, hk⟩⟩
    · obtain ⟨ha, hhead⟩ := (hheads a).mp ha
      exact hhead.direct_chain hw hl ⟨a, ha, rfl⟩

/-- The cases that an error about their order names. -/
def errorCases : CaseOrderError → List BlockId
  | .shared case first second => [case, first, second]
  | .circle case => [case]

/-- Links fail at the first case that falls into the same one as a case before it. -/
theorem backLinks_error {arms : List SwitchArm} {e : CaseOrderError} (h : backLinks arms = .error e) :
    ∃ done arm rest next, arms = done ++ arm :: rest ∧ arm.fallsInto? = some next ∧
      ∃ other ∈ done, other.fallsInto? = some next ∧ e = .shared next other.target arm.target := by
  have key : ∀ (rest done : List SwitchArm) (links : List (BlockId × BlockId)), arms = done ++ rest →
      LinksOf done links → rest.foldlM linkBack links = .error e →
      ∃ done arm rest next, arms = done ++ arm :: rest ∧ arm.fallsInto? = some next ∧
        ∃ other ∈ done, other.fallsInto? = some next ∧ e = .shared next other.target arm.target := by
    intro rest
    induction rest with
    | nil =>
      intro done links _ _ h
      cases h
    | cons arm rest ih =>
      intro done links harms hl h
      rw [List.foldlM_cons] at h
      cases hstep : linkBack links arm with
      | ok links' =>
        rw [hstep] at h
        exact ih (done ++ [arm]) links' (by simp [harms]) (linksOf_step hl hstep) h
      | error e' =>
        rw [hstep] at h
        cases h
        unfold linkBack at hstep
        cases hfalls : arm.fallsInto? with
        | none => simp [hfalls] at hstep
        | some next =>
          cases hlookup : links.lookup next with
          | none => simp [hfalls, hlookup] at hstep
          | some other =>
            simp only [hfalls, hlookup, Except.error.injEq] at hstep
            subst hstep
            obtain ⟨a, ha, hnext, rfl⟩ := hl.sound next other hlookup
            exact ⟨done, arm, rest, next, harms, hfalls, a, ha, hnext, rfl⟩
  exact key arms [] [] rfl ⟨by simp, by simp⟩ h

/-- An error about the order of cases is about these cases. -/
theorem order_error {arms : List SwitchArm} (hw : Wired arms) {e : CaseOrderError} (h : order arms = .error e) :
    ∀ t ∈ errorCases e, ∃ a ∈ arms, a.target = t := by
  unfold order at h
  cases hlinks : backLinks arms with
  | error e' =>
    rw [hlinks] at h
    cases h
    obtain ⟨done, arm, rest, next, rfl, hfalls, other, hother, -, rfl⟩ := backLinks_error hlinks
    simp only [errorCases, List.forall_mem_cons]
    exact ⟨hw.listed arm (by simp) next hfalls, ⟨other, List.mem_append_left _ hother, rfl⟩, ⟨arm, by simp, rfl⟩, by simp⟩
  | ok links =>
    simp only [hlinks, bind, Except.bind] at h
    split at h
    · rename_i arm hfind
      cases h
      simpa [errorCases] using ⟨arm, List.mem_of_find?_eq_some hfind, rfl⟩
    · cases h

/-! ### Cases that are in order already -/

section InOrder
variable {arms : List SwitchArm} {links : List (BlockId × BlockId)}

/-- Only the case right before another falls into it. -/
theorem Direct.index_eq (distinct : (arms.map (·.target)).Nodup) (h : Direct arms) {i j : Nat} {a b : SwitchArm}
    (ha : arms[i]? = some a) (hb : arms[j]? = some b) (hfalls : a.fallsInto? = some b.target) : j = i + 1 := by
  obtain ⟨c, hc, hcb⟩ := h i a b.target ha hfalls
  obtain ⟨hlt, -⟩ := List.getElem?_eq_some_iff.mp hb
  refine (List.getElem?_inj (by simpa using hlt) distinct).mp ?_
  rw [List.getElem?_map, List.getElem?_map, hb, hc, Option.map_some, Option.map_some, hcb]

theorem Direct.backLinks_ok (distinct : (arms.map (·.target)).Nodup) (h : Direct arms) :
    ∃ links, backLinks arms = .ok links := by
  have key : ∀ (rest done : List SwitchArm) (links₀ : List (BlockId × BlockId)), arms = done ++ rest →
      LinksOf done links₀ → ∃ links, rest.foldlM linkBack links₀ = .ok links := by
    intro rest
    induction rest with
    | nil => exact fun done links₀ _ _ => ⟨links₀, rfl⟩
    | cons arm rest ih =>
      intro done links₀ harms hl
      obtain ⟨links₁, hstep⟩ : ∃ links₁, linkBack links₀ arm = .ok links₁ := by
        unfold linkBack
        cases hfalls : arm.fallsInto? with
        | none => exact ⟨links₀, rfl⟩
        | some next =>
          cases hlookup : links₀.lookup next with
          | none => exact ⟨links₀ ++ [(next, arm.target)], by simp [hlookup]⟩
          | some other =>
            -- An earlier case would fall into the case after this one.
            obtain ⟨a, ha, hnext, -⟩ := hl.sound next other hlookup
            obtain ⟨i, hi⟩ := List.mem_iff_getElem?.mp ha
            have hlt : i < done.length := (List.getElem?_eq_some_iff.mp hi).1
            obtain ⟨b, hb, rfl⟩ := h done.length arm next (by simp [harms]) hfalls
            have hi' : arms[i]? = some a := by rw [harms, List.getElem?_append_left hlt, hi]
            have := h.index_eq distinct hi' hb hnext
            omega
      obtain ⟨links, hlinks⟩ := ih (done ++ [arm]) links₁ (by simp [harms]) (linksOf_step hl hstep)
      exact ⟨links, by rw [List.foldlM_cons, hstep]; exact hlinks⟩
  exact key arms [] [] rfl ⟨by simp, by simp⟩

/-- The case at an index is linked back to the one before it, or not at all. -/
theorem Direct.lookup_eq (distinct : (arms.map (·.target)).Nodup) (h : Direct arms) (hl : LinksOf arms links) {i : Nat}
    {b : SwitchArm} (hb : arms[i]? = some b) {t : BlockId} (ht : links.lookup b.target = some t) :
    ∃ j a, i = j + 1 ∧ arms[j]? = some a ∧ a.fallsInto? = some b.target ∧ a.target = t := by
  obtain ⟨a, ha, hfalls, htarget⟩ := hl.sound _ t ht
  obtain ⟨j, hj⟩ := List.mem_iff_getElem?.mp ha
  exact ⟨j, a, h.index_eq distinct hj hb hfalls, hj, hfalls, htarget⟩

theorem Direct.backEnds_eq (distinct : (arms.map (·.target)).Nodup) (h : Direct arms) (hl : LinksOf arms links)
    {i steps : Nat} {b : SwitchArm} (hb : arms[i]? = some b) (hle : i ≤ steps) : backEnds links steps b.target = true := by
  induction i generalizing steps b with
  | zero =>
    unfold backEnds
    cases hlookup : links.lookup b.target with
    | none => simp
    | some t =>
      obtain ⟨j, -, hj, -⟩ := h.lookup_eq distinct hl hb hlookup
      cases hj
  | succ i ih =>
    unfold backEnds
    cases hlookup : links.lookup b.target with
    | none => simp
    | some t =>
      obtain ⟨j, a, hj, ha, -, rfl⟩ := h.lookup_eq distinct hl hb hlookup
      cases hj
      obtain ⟨steps, rfl⟩ := Nat.exists_eq_add_of_le' (Nat.le_trans (Nat.le_add_left 1 i) hle)
      exact ih ha (by omega)

/-- A case is a head unless the one before falls into it. -/
theorem Direct.head_iff (distinct : (arms.map (·.target)).Nodup) (h : Direct arms) (hl : LinksOf arms links)
    {done rest : List SwitchArm} {a b : SwitchArm} (harms : arms = done ++ a :: b :: rest) :
    links.lookup b.target = none ↔ a.fallsInto? = none := by
  have ha : arms[done.length]? = some a := by simp [harms]
  have hb : arms[done.length + 1]? = some b := by simp [harms]
  constructor
  · intro hnone
    cases hfalls : a.fallsInto? with
    | none => rfl
    | some next =>
      obtain ⟨c, hc, rfl⟩ := h _ a next ha hfalls
      rw [hb] at hc
      cases hc
      rw [hl.complete a (List.mem_of_getElem? ha) _ hfalls] at hnone
      cases hnone
  · intro hnone
    cases hlookup : links.lookup b.target with
    | none => rfl
    | some t =>
      obtain ⟨j, a', hj, ha', hfalls, -⟩ := h.lookup_eq distinct hl hb hlookup
      cases hj
      rw [ha] at ha'
      cases ha'
      rw [hnone] at hfalls
      cases hfalls

/-- The chain from a case and those from the heads behind it are the cases from there on. -/
theorem Direct.chains_eq (hw : Wired arms) (h : Direct arms) (hl : LinksOf arms links) :
    ∀ (rest done : List SwitchArm) (a : SwitchArm) (count : Nat), arms = done ++ a :: rest → rest.length < count →
      chain arms count a.target ++ (rest.filter fun arm => (links.lookup arm.target).isNone).flatMap
        (fun arm => chain arms arms.length arm.target) = a :: rest := by
  intro rest
  induction rest with
  | nil =>
    intro done a count harms hcount
    obtain ⟨count, rfl⟩ := Nat.exists_eq_add_of_le' hcount
    have hfind : find? arms a.target = some a := (find?_eq_some_iff hw).mpr ⟨harms ▸ by simp, rfl⟩
    have hnone : a.fallsInto? = none := by
      cases hfalls : a.fallsInto? with
      | none => rfl
      | some next =>
        obtain ⟨b, hb, -⟩ := h done.length a next (by simp [harms]) hfalls
        simp [harms] at hb
    simp [chain, hfind, hnone]
  | cons b rest ih =>
    intro done a count harms hcount
    obtain ⟨count, rfl⟩ := Nat.exists_eq_add_of_le' (Nat.zero_lt_of_lt hcount)
    have hfind : find? arms a.target = some a := (find?_eq_some_iff hw).mpr ⟨harms ▸ by simp, rfl⟩
    have harms' : arms = (done ++ [a]) ++ b :: rest := by simp [harms]
    have hhead := h.head_iff hw.distinct hl harms
    cases hfalls : a.fallsInto? with
    | none =>
      -- The chain ends here, and the next case is the head of the next one.
      have hlength : rest.length < arms.length := by
        simp only [harms, List.length_append, List.length_cons]
        omega
      have hnext := ih (done ++ [a]) b arms.length harms' hlength
      simpa [chain, hfind, hfalls, hhead.mpr hfalls] using hnext
    | some next =>
      obtain ⟨c, hc, rfl⟩ := h done.length a next (by simp [harms]) hfalls
      obtain rfl : b = c := by simpa [harms] using hc
      have hlinked : (links.lookup b.target).isNone = false := by
        rw [hl.complete a (harms ▸ by simp) _ hfalls]
        rfl
      have hnext := ih (done ++ [a]) b count harms' (by simpa using hcount)
      simpa [chain, hfind, hfalls, hlinked] using hnext

/-- Cases that stand directly before those that they fall into keep their order. -/
theorem order_eq_self (hw : Wired arms) (h : Direct arms) : order arms = .ok arms := by
  obtain ⟨links, hlinks⟩ := h.backLinks_ok hw.distinct
  have hl := linksOf_of_backLinks hlinks
  have hends : arms.find? (fun arm => !backEnds links arms.length arm.target) = none := by
    rw [List.find?_eq_none]
    intro a ha
    obtain ⟨i, hi⟩ := List.mem_iff_getElem?.mp ha
    have hlt : i < arms.length := (List.getElem?_eq_some_iff.mp hi).1
    simp [h.backEnds_eq hw.distinct hl hi (Nat.le_of_lt hlt)]
  have hchains : (arms.filter fun arm => (links.lookup arm.target).isNone).flatMap
      (fun arm => chain arms arms.length arm.target) = arms := by
    cases harms : arms with
    | nil => rfl
    | cons a rest =>
      have hfirst : links.lookup a.target = none := by
        cases hlookup : links.lookup a.target with
        | none => rfl
        | some t =>
          obtain ⟨j, -, hj, -⟩ := h.lookup_eq hw.distinct hl (i := 0) (b := a) (by simp [harms]) hlookup
          cases hj
      have hrest := h.chains_eq hw hl rest [] a arms.length harms (by simp [harms])
      rw [harms] at hrest
      simpa [hfirst] using hrest
  unfold order
  simp only [hlinks, bind, Except.bind, hends, hchains]

end InOrder

end SwitchArm
end FlowTree
