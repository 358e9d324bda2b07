import FlowTree.Proofs.Sequences
import FlowTree.Proofs.Tree.Merging
import Mathlib.Logic.Function.Basic

/-!
What exits hold after any history of operations. The same operations on a list of targets beside a table of their edges
(`Ledger`) keep the two in step, and exits hold what the ledger holds (`ledger_add`, `ledger_merge`, `ledger_remove`).
A log of additions and removals tells since when each target has been there, and targets are listed in that order
(`Dated`).
-/

namespace FlowTree
namespace Exits

variable {β ε : Type}

/-- The targets in a list, and the edges for each of them in a table. -/
structure Ledger (β ε : Type) where
  targets : List β := []
  edges : β → Option (List ε) := fun _ => none
  returnOrKill : List β := []

/-- List and table are in step: each target is listed once, and those in the table are the ones in the list. The edges
for each of them are at least one, and each is held once. -/
structure Ledger.InStep (l : Ledger β ε) : Prop where
  targets_nodup : l.targets.Nodup
  mem_iff : ∀ t, t ∈ l.targets ↔ ∃ es, l.edges t = some es
  edges_ne_nil : ∀ t es, l.edges t = some es → es ≠ []
  edges_nodup : ∀ t es, l.edges t = some es → es.Nodup

namespace Ledger

variable [DecidableEq β] [DecidableEq ε]

/-- Add an edge for the target. A target that is not in the table is listed behind the others. -/
def add (l : Ledger β ε) (target : β) (edge : ε) : Ledger β ε :=
  let edges := (l.edges target).getD []
  { l with
    targets := if (l.edges target).isSome then l.targets else l.targets ++ [target]
    edges := if edge ∈ edges then l.edges else Function.update l.edges target (some (edges ++ [edge])) }

/-- Add blocks that leave the function. -/
def addReturns (l : Ledger β ε) (blocks : List β) : Ledger β ε := { l with returnOrKill := l.returnOrKill ++ blocks }

/-- Add what another ledger holds: the edges for each target in its list, as they stand in its table. -/
def merge (l m : Ledger β ε) : Ledger β ε :=
  (m.targets.foldl (fun l target => ((m.edges target).getD []).foldl (fun l edge => l.add target edge) l) l).addReturns
    m.returnOrKill

/-- Add what the ledger itself holds. The edges for each target in its list are read from its table as it stands by
then. -/
def mergeSelf (l : Ledger β ε) : Ledger β ε :=
  (l.targets.foldl (fun l target => ((l.edges target).getD []).foldl (fun l edge => l.add target edge) l) l).addReturns
    l.returnOrKill

/-- Take a target that is in the table out of it and out of the list. -/
def remove (l : Ledger β ε) (target : β) : Ledger β ε :=
  if (l.edges target).isSome then
    { l with targets := l.targets.filter (· ≠ target), edges := Function.update l.edges target none }
  else l

theorem add_of_mem {l : Ledger β ε} {t : β} {e : ε} (h : e ∈ (l.edges t).getD []) : l.add t e = l := by
  have hsome : (l.edges t).isSome = true := by
    cases hedges : l.edges t with
    | none => simp [hedges] at h
    | some es => rfl
  simp [add, h, hsome]

/-- A ledger holds its edges already, so while it is merged into itself its table does not change. -/
theorem mergeSelf_eq_merge (l : Ledger β ε) : l.mergeSelf = l.merge l := by
  have hsame : ∀ t, ((l.edges t).getD []).foldl (fun l e => l.add t e) l = l := fun t =>
    List.foldlRecOn (motive := (· = l)) _ _ rfl fun m hm e he => by
      rw [hm]
      exact add_of_mem he
  unfold mergeSelf merge
  rw [List.foldl_fixed' hsame, List.foldl_fixed' hsame]

end Ledger

section
variable [DecidableEq β] [DecidableEq ε] {x y : Exits β ε} {t u : β} {e : ε}

/-- The ledger that holds what exits hold. -/
def ledger (x : Exits β ε) : Ledger β ε := ⟨x.targetList, (x.targets.lookup ·), x.returnOrKill⟩

omit [DecidableEq ε] in
theorem mem_targetList_iff_lookup : t ∈ x.targetList ↔ (x.targets.lookup t).isSome = true := by
  rw [List.lookup_isSome_iff, mem_targetList]
  constructor
  · rintro ⟨es, hgroup⟩
    exact ⟨_, hgroup, beq_self_eq_true t⟩
  · rintro ⟨⟨u, es⟩, hgroup, heq⟩
    exact ⟨es, eq_of_beq heq ▸ hgroup⟩

theorem ledger_add (x : Exits β ε) (t : β) (e : ε) : (x.add t e).ledger = x.ledger.add t e := by
  have hlisted : (t ∈ x.targets.map (·.1)) = ((x.targets.lookup t).isSome = true) := propext mem_targetList_iff_lookup
  unfold ledger Ledger.add targetList add
  simp only [map_insert, hlisted, Ledger.mk.injEq, true_and, and_true]
  funext u
  rw [lookup_insert]
  split
  · rename_i heq
    subst heq
    split
    · -- The edge is there already, so the target is in the table.
      rename_i he
      cases hlookup : x.targets.lookup u with
      | none => simp [hlookup] at he
      | some es => exact hlookup.symm
    · rw [Function.update_self]
  · rename_i hne
    split
    · rfl
    · rw [Function.update_of_ne hne]

theorem ledger_addPairs (ps : List (β × ε)) :
    (x.addPairs ps).ledger = ps.foldl (fun l p => l.add p.1 p.2) x.ledger := by
  induction ps generalizing x with
  | nil => rfl
  | cons p ps ih =>
    have h := ih (x := x.add p.1 p.2)
    rwa [ledger_add] at h

omit [DecidableEq ε] in
theorem ledger_addReturns (x : Exits β ε) (blocks : List β) :
    (x.addReturns blocks).ledger = x.ledger.addReturns blocks := rfl

theorem ledger_merge (x : Exits β ε) (hy : y.Neat) : (x.merge y).ledger = x.ledger.merge y.ledger := by
  have hpairs : (pairs y.targets).foldl (fun l p => l.add p.1 p.2) x.ledger =
      y.targetList.foldl (fun l t => ((y.targets.lookup t).getD []).foldl (fun l e => l.add t e) l) x.ledger := by
    unfold pairs targetList
    rw [List.foldl_flatMap, List.foldl_map]
    refine List.foldl_ext _ _ _ fun l group hgroup => ?_
    rw [hy.lookup_eq_some_iff.mpr hgroup, List.foldl_map]
    rfl
  rw [merge_eq_addPairs, ledger_addReturns, ledger_addPairs, hpairs]
  rfl

omit [DecidableEq ε] in
theorem lookup_remove : (x.remove t).targets.lookup u = if u = t then none else x.targets.lookup u := by
  simp only [remove]
  induction x.targets with
  | nil => simp
  | cons group rest ih =>
    obtain ⟨v, es⟩ := group
    by_cases hv : v = t
    · subst hv
      rw [List.filter_cons_of_neg (by simp), ih, lookup_cons]
      split <;> rfl
    · rw [List.filter_cons_of_pos (by simpa using hv), lookup_cons, lookup_cons, ih]
      split
      · rename_i heq
        rw [if_neg (heq ▸ hv)]
      · rfl

omit [DecidableEq ε] in
theorem edges_remove : (x.remove t).edges u = if u = t then [] else x.edges u := by
  unfold edges
  rw [lookup_remove]
  split <;> rfl

omit [DecidableEq ε] in
theorem ledger_remove (x : Exits β ε) (t : β) : (x.remove t).ledger = x.ledger.remove t := by
  have htable : (fun u => (x.remove t).targets.lookup u) = Function.update (x.targets.lookup ·) t none := by
    funext u
    rw [lookup_remove]
    split
    · rename_i heq
      rw [heq, Function.update_self]
    · rw [Function.update_of_ne ‹_›]
  unfold Ledger.remove ledger
  rw [targetList_remove, htable]
  by_cases ht : t ∈ x.targetList
  · rw [if_pos (mem_targetList_iff_lookup.mp ht)]
    rfl
  · have hnone : x.targets.lookup t = none :=
      Option.not_isSome_iff_eq_none.mp fun hsome => ht (mem_targetList_iff_lookup.mpr hsome)
    have hsame : x.targetList.filter (· ≠ t) = x.targetList :=
      List.filter_eq_self.mpr fun u hu => decide_eq_true fun heq => ht (heq ▸ hu)
    rw [if_neg (by simp [hnone]), hsame, Function.update_eq_self_iff.mpr hnone.symm]
    rfl

omit [DecidableEq ε] in
theorem Neat.inStep (hx : x.Neat) : x.ledger.InStep where
  targets_nodup := hx.targets_nodup
  mem_iff t := by
    rw [← Option.isSome_iff_exists]
    exact mem_targetList_iff_lookup
  edges_ne_nil _ _ hes := hx.full _ (hx.lookup_eq_some_iff.mp hes)
  edges_nodup _ _ hes := hx.edges_nodup _ (hx.lookup_eq_some_iff.mp hes)

end

/-! ### Since when a target has been there -/

/-- A change of the targets. -/
inductive Change (β : Type) where
  | added (target : β)
  | removed (target : β)
  deriving DecidableEq, Repr

/-- The target has been there since the change with the given number: it was added then for the first time since it was
removed last. -/
structure Since (log : List (Change β)) (t : β) (n : Nat) : Prop where
  added : log[n]? = some (.added t)
  kept : ∀ m, n < m → log[m]? ≠ some (.removed t)
  first : ∀ m, m < n → log[m]? = some (.added t) → ∃ k, m < k ∧ k < n ∧ log[k]? = some (.removed t)

/-- The targets are those that the log says are there, and stand in the order in which they have been there. -/
structure Dated (targets : List β) (log : List (Change β)) : Prop where
  mem_iff : ∀ t, t ∈ targets ↔ ∃ n, Since log t n
  ordered : targets.Pairwise fun t u => ∀ m n, Since log t m → Since log u n → m < n

section
variable {log : List (Change β)} {t u : β} {n : Nat}

theorem Since.lt (h : Since log t n) : n < log.length := (List.getElem?_eq_some_iff.mp h.added).1

/-- A target that was added and not removed after that has been there since some time. -/
theorem exists_since {m : Nat} (added : log[m]? = some (.added t)) (kept : ∀ k, m < k → log[k]? ≠ some (.removed t)) :
    ∃ n, Since log t n := by
  induction m using Nat.strongRecOn with
  | _ m ih =>
    by_cases hfirst : ∀ k, k < m → log[k]? = some (.added t) → ∃ l, k < l ∧ l < m ∧ log[l]? = some (.removed t)
    · exact ⟨m, added, kept, hfirst⟩
    · push Not at hfirst
      obtain ⟨k, hk, hadded, hkept⟩ := hfirst
      refine ih k hk hadded fun l hl hremoved => ?_
      rcases Nat.lt_trichotomy l m with hlt | rfl | hgt
      · exact hkept l hl hlt hremoved
      · rw [added] at hremoved
        cases hremoved
      · exact kept l hgt hremoved

/-- A further change leaves the date as it is, unless it removes the target. -/
theorem Since.concat {c : Change β} (h : Since log t n) (hc : c ≠ .removed t) : Since (log ++ [c]) t n where
  added := getElem?_concat.mpr (Or.inl h.added)
  kept m hm hremoved := by
    rcases getElem?_concat.mp hremoved with hremoved | ⟨-, heq⟩
    · exact h.kept m hm hremoved
    · exact hc heq.symm
  first m hm hadded := by
    have hadded := (List.getElem?_append_left (Nat.lt_trans hm h.lt)).symm.trans hadded
    obtain ⟨k, hmk, hkn, hremoved⟩ := h.first m hm hadded
    exact ⟨k, hmk, hkn, getElem?_concat.mpr (Or.inl hremoved)⟩

theorem Since.of_concat {c : Change β} (h : Since (log ++ [c]) t n) (hn : n < log.length) : Since log t n where
  added := (List.getElem?_append_left hn).symm.trans h.added
  kept m hm hremoved := h.kept m hm (getElem?_concat.mpr (Or.inl hremoved))
  first m hm hadded := by
    obtain ⟨k, hmk, hkn, hremoved⟩ := h.first m hm (getElem?_concat.mpr (Or.inl hadded))
    exact ⟨k, hmk, hkn, (List.getElem?_append_left (Nat.lt_trans hkn hn)).symm.trans hremoved⟩

/-- Adding a target dates it, unless it has been there already. -/
theorem since_added : Since (log ++ [.added u]) t n ↔
    Since log t n ∨ (t = u ∧ n = log.length ∧ ∀ m, ¬Since log t m) := by
  constructor
  · intro h
    rcases getElem?_concat.mp h.added with hadded | ⟨rfl, heq⟩
    · exact Or.inl (h.of_concat (List.getElem?_eq_some_iff.mp hadded).1)
    · cases heq
      refine Or.inr ⟨rfl, rfl, fun m hm => ?_⟩
      obtain ⟨k, hmk, hkn, hremoved⟩ := h.first m hm.lt (getElem?_concat.mpr (Or.inl hm.added))
      exact hm.kept k hmk ((List.getElem?_append_left hkn).symm.trans hremoved)
  · rintro (h | ⟨rfl, rfl, hnone⟩)
    · exact h.concat nofun
    · refine ⟨getElem?_concat.mpr (Or.inr ⟨rfl, rfl⟩), fun m hm hremoved => ?_, fun m hm hadded => ?_⟩
      · exact absurd (List.getElem?_eq_some_iff.mp hremoved).1 (by simpa using Nat.succ_le_of_lt hm)
      · -- Otherwise the target would have been there before.
        by_contra hno
        push Not at hno
        have hadded := (List.getElem?_append_left hm).symm.trans hadded
        obtain ⟨m', hsince⟩ := exists_since hadded fun k hk hremoved =>
          hno k hk (List.getElem?_eq_some_iff.mp hremoved).1 (getElem?_concat.mpr (Or.inl hremoved))
        exact hnone m' hsince

/-- Removing a target takes away its date. -/
theorem since_removed : Since (log ++ [.removed u]) t n ↔ Since log t n ∧ t ≠ u := by
  constructor
  · intro h
    have hadded : log[n]? = some (.added t) := (getElem?_concat.mp h.added).resolve_right fun heq => nomatch heq.2
    have hn : n < log.length := (List.getElem?_eq_some_iff.mp hadded).1
    refine ⟨h.of_concat hn, ?_⟩
    rintro rfl
    exact h.kept log.length hn (getElem?_concat.mpr (Or.inr ⟨rfl, rfl⟩))
  · rintro ⟨h, hne⟩
    exact h.concat fun heq => hne (Change.removed.inj heq).symm

theorem dated_nil : Dated ([] : List β) [] where
  mem_iff t := by
    constructor
    · exact fun ht => absurd ht List.not_mem_nil
    · rintro ⟨n, h⟩
      exact absurd h.lt (Nat.not_lt_zero n)
  ordered := .nil

end

section
variable [DecidableEq β] {targets : List β} {log : List (Change β)}

theorem Dated.added (h : Dated targets log) (u : β) :
    Dated (noted targets u) (log ++ [.added u]) := by
  unfold noted
  split
  · rename_i hu
    -- The target has been there, and no date changes.
    have hsame : ∀ t n, Since (log ++ [.added u]) t n ↔ Since log t n := fun t n => by
      rw [since_added]
      refine or_iff_left fun ⟨heq, _, hnone⟩ => ?_
      obtain ⟨m, hm⟩ := (h.mem_iff u).mp hu
      exact hnone m (heq ▸ hm)
    exact ⟨fun t => by simp only [hsame, h.mem_iff], h.ordered.imp fun hlt => by simpa only [hsame] using hlt⟩
  · rename_i hu
    have hnone : ∀ m, ¬Since log u m := fun m hm => hu ((h.mem_iff u).mpr ⟨m, hm⟩)
    have hsince : ∀ t n, Since (log ++ [.added u]) t n ↔ Since log t n ∨ (t = u ∧ n = log.length) := fun t n => by
      rw [since_added]
      refine or_congr_right ⟨fun ⟨heq, hn, _⟩ => ⟨heq, hn⟩, fun ⟨heq, hn⟩ => ⟨heq, hn, heq ▸ hnone⟩⟩
    have hold : ∀ {t n}, t ∈ targets → Since (log ++ [.added u]) t n → Since log t n := fun ht hn =>
      ((hsince _ _).mp hn).resolve_right fun heq => hu (heq.1 ▸ ht)
    refine ⟨fun t => ?_, List.pairwise_append.mpr ⟨?_, List.pairwise_singleton _ _, fun t ht v hv m n hm hn => ?_⟩⟩
    · simp [hsince, exists_or, h.mem_iff]
    · exact h.ordered.imp_of_mem fun ht hv hlt m n hm hn => hlt m n (hold ht hm) (hold hv hn)
    · rw [List.mem_singleton.mp hv] at hn
      rw [((hsince _ _).mp hn).resolve_left (hnone n) |>.2]
      exact (hold ht hm).lt

theorem Dated.removed (h : Dated targets log) (u : β) : Dated (targets.filter (· ≠ u)) (log ++ [.removed u]) where
  mem_iff t := by simp [since_removed, h.mem_iff]
  ordered := (h.ordered.filter _).imp fun hlt m n hm hn => hlt m n (since_removed.mp hm).1 (since_removed.mp hn).1

end

/-! ### Histories -/

/-- Exits together with the ledger that the same operations make, and a log of what was added and removed. -/
structure Traced (β ε : Type) where
  exits : Exits β ε := {}
  ledger : Ledger β ε := {}
  log : List (Change β) := []

/-- An operation on exits, which are numbered in the order in which they were made. -/
inductive Action (β ε : Type) where
  | create
  | add (i : Nat) (target : β) (edge : ε)
  | addReturns (i : Nat) (blocks : List β)
  | merge (i j : Nat)
  | remove (i : Nat) (target : β)
  | copy (i : Nat)
  deriving DecidableEq, Repr

section
variable [DecidableEq β] [DecidableEq ε]

namespace Traced

def add (r : Traced β ε) (target : β) (edge : ε) : Traced β ε :=
  ⟨r.exits.add target edge, r.ledger.add target edge, r.log ++ [.added target]⟩

def addReturns (r : Traced β ε) (blocks : List β) : Traced β ε :=
  { r with exits := r.exits.addReturns blocks, ledger := r.ledger.addReturns blocks }

/-- The log of exits that are merged goes on with the edges that are added one by one. -/
def merge (r s : Traced β ε) : Traced β ε :=
  ⟨r.exits.merge s.exits, r.ledger.merge s.ledger, r.log ++ (pairs s.exits.targets).map (.added ·.1)⟩

/-- Exits that are merged into themselves. -/
def mergeSelf (r : Traced β ε) : Traced β ε := { r.merge r with ledger := r.ledger.mergeSelf }

def remove (r : Traced β ε) (target : β) : Traced β ε :=
  ⟨r.exits.remove target, r.ledger.remove target, r.log ++ [.removed target]⟩

end Traced

/-- What an operation makes of the exits there are. -/
def perform (rs : List (Traced β ε)) : Action β ε → List (Traced β ε)
  | .create => rs ++ [{}]
  | .add i target edge => rs.modify i (·.add target edge)
  | .addReturns i blocks => rs.modify i (·.addReturns blocks)
  | .merge i j =>
    if i = j then rs.modify i (·.mergeSelf)
    else match rs[j]? with
      | some s => rs.modify i (·.merge s)
      | none => rs
  | .remove i target => rs.modify i (·.remove target)
  | .copy i => rs ++ rs[i]?.toList

/-- The exits there are after operations one after the other. -/
def run (actions : List (Action β ε)) : List (Traced β ε) := actions.foldl perform []

/-- What holds of exits after any operations. -/
structure Traced.Sound (r : Traced β ε) : Prop where
  reached : r.exits.Reached
  ledger_eq : r.ledger = r.exits.ledger
  dated : Dated r.exits.targetList r.log

theorem Dated.addPairs {x : Exits β ε} {log : List (Change β)} (h : Dated x.targetList log) (ps : List (β × ε)) :
    Dated (x.addPairs ps).targetList (log ++ ps.map (.added ·.1)) := by
  induction ps generalizing x log with
  | nil => simpa using h
  | cons p ps ih =>
    obtain ⟨t, e⟩ := p
    have hone : Dated (x.add t e).targetList (log ++ [.added t]) := targetList_add x t e ▸ h.added t
    simpa using ih hone

namespace Traced.Sound

variable {r s : Traced β ε}

theorem empty : ({} : Traced β ε).Sound := ⟨.empty, rfl, dated_nil⟩

theorem add (h : r.Sound) (t : β) (e : ε) : (r.add t e).Sound where
  reached := h.reached.add t e
  ledger_eq := by
    rw [Traced.add, h.ledger_eq, ledger_add]
  dated := h.dated.addPairs [(t, e)]

theorem addReturns (h : r.Sound) (blocks : List β) : (r.addReturns blocks).Sound where
  reached := h.reached.addReturns blocks
  ledger_eq := by
    rw [Traced.addReturns, h.ledger_eq, ledger_addReturns]
  dated := h.dated

theorem merge (h : r.Sound) (hs : s.Sound) : (r.merge s).Sound where
  reached := h.reached.merge hs.reached
  ledger_eq := by
    rw [Traced.merge, h.ledger_eq, hs.ledger_eq, ledger_merge _ hs.reached.neat]
  dated := by
    rw [Traced.merge, merge_eq_addPairs]
    exact h.dated.addPairs _

theorem mergeSelf (h : r.Sound) : r.mergeSelf.Sound := by
  rw [Traced.mergeSelf, Ledger.mergeSelf_eq_merge]
  exact h.merge h

theorem remove (h : r.Sound) (t : β) : (r.remove t).Sound where
  reached := h.reached.remove t
  ledger_eq := by
    rw [Traced.remove, h.ledger_eq, ledger_remove]
  dated := by
    rw [Traced.remove, targetList_remove]
    exact h.dated.removed t

end Traced.Sound

theorem forall_mem_modify {α : Type} {p : α → Prop} {f : α → α} {xs : List α} (h : ∀ x ∈ xs, p x)
    (hf : ∀ x, p x → p (f x)) (i : Nat) : ∀ x ∈ xs.modify i f, p x := by
  intro x hx
  obtain ⟨j, hj⟩ := List.mem_iff_getElem?.mp hx
  rw [List.getElem?_modify, Option.map_eq_map, Option.map_eq_some_iff] at hj
  obtain ⟨y, hy, rfl⟩ := hj
  have hy := h y (List.mem_of_getElem? hy)
  split
  · exact hf y hy
  · exact hy

theorem sound_perform {rs : List (Traced β ε)} (h : ∀ r ∈ rs, r.Sound) (action : Action β ε) :
    ∀ r ∈ perform rs action, r.Sound := by
  cases action with
  | create => exact List.forall_mem_append.mpr ⟨h, by simpa using Traced.Sound.empty⟩
  | add i t e => exact forall_mem_modify h (fun _ hr => hr.add t e) i
  | addReturns i blocks => exact forall_mem_modify h (fun _ hr => hr.addReturns blocks) i
  | merge i j =>
    simp only [perform]
    split
    · exact forall_mem_modify h (fun _ hr => hr.mergeSelf) i
    · split
      · rename_i s hs
        exact forall_mem_modify h (fun _ hr => hr.merge (h s (List.mem_of_getElem? hs))) i
      · exact h
  | remove i t => exact forall_mem_modify h (fun _ hr => hr.remove t) i
  | copy i =>
    refine List.forall_mem_append.mpr ⟨h, fun r hr => h r ?_⟩
    exact List.mem_of_getElem? (Option.mem_toList.mp hr)

theorem sound_run (actions : List (Action β ε)) : ∀ r ∈ run actions, r.Sound :=
  List.foldlRecOn (motive := fun rs => ∀ r ∈ rs, r.Sound) actions perform (by simp) fun _ h action _ =>
    sound_perform h action

omit [DecidableEq ε] in
/-- No edge leaves just when none is held for any target. -/
theorem Neat.isEmpty_iff {x : Exits β ε} (hx : x.Neat) : x.isEmpty = true ↔ ∀ t, x.edges t = [] := by
  rw [isEmpty, List.isEmpty_iff]
  constructor
  · intro hnil t
    simp [edges, hnil]
  · intro hnone
    cases hgroups : x.targets with
    | nil => rfl
    | cons group rest =>
      have hgroup : group ∈ x.targets := hgroups ▸ List.mem_cons_self
      have hlookup := hx.lookup_eq_some_iff.mpr hgroup
      have hedges := hnone group.1
      rw [edges, hlookup] at hedges
      exact absurd hedges (hx.full _ hgroup)

/-- Any exits, whatever operations they and others have been through, keep their targets and edges in step with those of
a list beside a table. The targets stand in the order in which they have been there, those that are listed are those
with edges, and to remove one of them leaves the others as they are. -/
theorem exits_in_step {actions : List (Action β ε)} {r : Traced β ε} (hr : r ∈ run actions) :
    r.ledger = r.exits.ledger ∧ r.ledger.InStep ∧ Dated r.exits.targetList r.log ∧
      (∀ t, r.exits.has t = true ↔ t ∈ r.exits.targetList) ∧
      (r.exits.isEmpty = true ↔ ∀ t, r.exits.edges t = []) ∧
      ∀ t, (r.exits.remove t).edges t = [] ∧ (r.exits.remove t).targetList = r.exits.targetList.filter (· ≠ t) ∧
        (r.exits.remove t).returnOrKill = r.exits.returnOrKill ∧
        ∀ u, u ≠ t → (r.exits.remove t).edges u = r.exits.edges u ∧ (r.exits.remove t).has u = r.exits.has u := by
  have h := sound_run actions r hr
  have hneat := h.reached.neat
  refine ⟨h.ledger_eq, h.ledger_eq ▸ hneat.inStep, h.dated, fun t => has_iff, hneat.isEmpty_iff, fun t => ?_⟩
  refine ⟨by rw [edges_remove, if_pos rfl], targetList_remove _ t, rfl, fun u hu => ⟨by rw [edges_remove, if_neg hu], ?_⟩⟩
  rw [Bool.eq_iff_iff, has_iff, has_iff, targetList_remove, List.mem_filter]
  exact and_iff_left (decide_eq_true hu)

end

/-- A target is removed and added anew, and the exits are copied, merged into themselves and merged into the copy. -/
def sampleHistory : List (Action Nat Nat) :=
  [.create, .add 0 3 0, .add 0 1 1, .add 0 3 2, .copy 0, .remove 0 3, .add 0 3 5, .merge 0 0, .merge 1 0]

theorem exits_in_step_sampleHistory : ∃ r s, run sampleHistory = [r, s] ∧ r.exits.targets = [(1, [1]), (3, [5])] ∧
    Dated [1, 3] r.log ∧ r.ledger.InStep ∧ s.exits.targets = [(3, [0, 2, 5]), (1, [1])] ∧ Dated [3, 1] s.log := by
  have hr := exits_in_step (List.get_mem (run sampleHistory) ⟨0, by decide⟩)
  have hs := exits_in_step (List.get_mem (run sampleHistory) ⟨1, by decide⟩)
  exact ⟨_, _, rfl, rfl, hr.2.2.1, hr.2.1, rfl, hs.2.2.1⟩

end Exits
end FlowTree
