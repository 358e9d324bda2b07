import FlowTree.Proofs.Reordering.Renumbering

/-!
What structuring works with, seen in two graphs that have the same blocks under different numbers: loose ends, children
of nodes, and the cases of a switch. Whatever is asked of them has the same answer in both, up to the numbers of blocks.
-/

namespace FlowTree

open Structuring

namespace Exits

section
variable {σ : BlockId → BlockId} (hσ : Function.Injective σ)
include hσ

theorem noted_map (ts : List BlockId) (t : BlockId) : noted (ts.map σ) (σ t) = (noted ts t).map σ := by
  unfold noted
  simp only [List.mem_map_of_injective hσ]
  split <;> simp

theorem foldl_noted_map (us ts : List BlockId) : (us.map σ).foldl noted (ts.map σ) = (us.foldl noted ts).map σ := by
  induction us generalizing ts with
  | nil => rfl
  | cons u us ih => rw [List.map_cons, List.foldl_cons, List.foldl_cons, noted_map hσ, ih]

end

/-- The loose ends lead to the same blocks, in the same order. -/
structure Alike (σ : BlockId → BlockId) (x x' : BlockExits) : Prop where
  neat : x.Neat
  neat' : x'.Neat
  targets_eq : x'.targetList = x.targetList.map σ

section
variable {σ : BlockId → BlockId} {x x' y y' : BlockExits} {t : BlockId}

theorem alike_nil (σ : BlockId → BlockId) (returns returns' : List BlockId) :
    Alike σ { returnOrKill := returns } { returnOrKill := returns' } :=
  ⟨neat_nil _, neat_nil _, rfl⟩

variable (hσ : Function.Injective σ)
include hσ

theorem Alike.has_eq (h : Alike σ x x') : x'.has (σ t) = x.has t := by
  rw [Bool.eq_iff_iff, has_iff, has_iff, h.targets_eq, List.mem_map_of_injective hσ]

theorem Alike.add (h : Alike σ x x') (e e' : EdgeId) : Alike σ (x.add t e) (x'.add (σ t) e') where
  neat := h.neat.add t e
  neat' := h.neat'.add (σ t) e'
  targets_eq := by rw [targetList_add, targetList_add, h.targets_eq, noted_map hσ]

theorem Alike.addAll (h : Alike σ x x') {es es' : List EdgeId} (hes : es = [] ↔ es' = []) :
    Alike σ (x.addAll t es) (x'.addAll (σ t) es') where
  neat := h.neat.addAll t es
  neat' := h.neat'.addAll (σ t) es'
  targets_eq := by
    by_cases hnil : es = []
    · rw [hnil, hes.mp hnil]
      exact h.targets_eq
    · rw [targetList_addAll x t hnil, targetList_addAll x' (σ t) (mt hes.mpr hnil), h.targets_eq, noted_map hσ]

theorem Alike.merge (h : Alike σ x x') (hy : Alike σ y y') : Alike σ (x.merge y) (x'.merge y') where
  neat := h.neat.merge y
  neat' := h.neat'.merge y'
  targets_eq := by
    rw [targetList_merge x hy.neat.full, targetList_merge x' hy.neat'.full, h.targets_eq, hy.targets_eq,
      foldl_noted_map hσ]

theorem Alike.remove (h : Alike σ x x') (t : BlockId) : Alike σ (x.remove t) (x'.remove (σ t)) where
  neat := h.neat.remove t
  neat' := h.neat'.remove (σ t)
  targets_eq := by rw [targetList_remove, targetList_remove, h.targets_eq, filter_ne_map hσ]

theorem Alike.kept (h : Alike σ x x') (exits : List BlockId) :
    Alike σ (Structuring.kept exits x) (Structuring.kept (exits.map σ) x') where
  neat := h.neat.filter _
  neat' := h.neat'.filter _
  targets_eq := by
    have hkept : ∀ exits x, (Structuring.kept exits x).targetList = x.targetList.filter (· ∈ exits) := fun _ x => by
      simp [targetList, Structuring.kept, List.filter_map, Function.comp_def]
    rw [hkept, hkept, h.targets_eq, filter_mem_map hσ]

theorem Alike.onward_eq (h : Alike σ x x') (exits : List BlockId) :
    Structuring.onward (exits.map σ) x' = (Structuring.onward exits x).map σ := by
  unfold Structuring.onward
  rw [h.targets_eq, filter_notMem_map hσ]

end

end Exits

/-- The child, with its block under the new number. -/
def Child.renumber (σ : BlockId → BlockId) : Child → Child
  | .node id => .node id
  | .block b => .block (σ b)

/-! ### Switch cases -/

namespace SwitchArm

/-- The cases are the same, up to the numbers of blocks. -/
structure Alike (σ : BlockId → BlockId) (a a' : SwitchArm) : Prop where
  target_eq : a'.target = σ a.target
  children_eq : a'.children = a.children.map (Child.renumber σ)
  exits : Exits.Alike σ a.exits a'.exits
  falls_eq : a'.fallsInto? = a.fallsInto?.map σ

end SwitchArm

/-- Why cases have no order, with the cases under their new numbers. -/
def CaseOrderError.renumber (σ : BlockId → BlockId) : CaseOrderError → CaseOrderError
  | .shared case first second => .shared (σ case) (σ first) (σ second)
  | .circle case => .circle (σ case)

/-- Links between cases under their new numbers. -/
def renumberLinks (σ : BlockId → BlockId) (links : List (BlockId × BlockId)) : List (BlockId × BlockId) :=
  links.map fun link => (σ link.1, σ link.2)

/-- Results correspond: values to values, and what went wrong to what went wrong there. -/
inductive ResultsAlike {ε ε' α α' : Type} (wrong : ε → ε' → Prop) (right : α → α' → Prop) : Except ε α → Except ε' α' → Prop
  | error {e : ε} {e' : ε'} (h : wrong e e') : ResultsAlike wrong right (.error e) (.error e')
  | ok {a : α} {a' : α'} (h : right a a') : ResultsAlike wrong right (.ok a) (.ok a')

theorem ResultsAlike.bind {ε ε' α α' β β' : Type} {wrong : ε → ε' → Prop} {right : α → α' → Prop} {after : β → β' → Prop}
    {x : Except ε α} {x' : Except ε' α'} {f : α → Except ε β} {f' : α' → Except ε' β'} (h : ResultsAlike wrong right x x')
    (hf : ∀ a a', right a a' → ResultsAlike wrong after (f a) (f' a')) :
    ResultsAlike wrong after (x >>= f) (x' >>= f') := by
  cases h with
  | error h => exact .error h
  | ok h => exact hf _ _ h

/-- Both or neither was found, and what was found corresponds. -/
inductive FoundAlike {α α' : Type} (R : α → α' → Prop) : Option α → Option α' → Prop
  | none : FoundAlike R none none
  | some {a : α} {a' : α'} (h : R a a') : FoundAlike R (some a) (some a')

theorem foundAlike_find? {α α' : Type} {R : α → α' → Prop} {xs : List α} {xs' : List α'} (h : List.Forall₂ R xs xs')
    {p : α → Bool} {p' : α' → Bool} (hp : ∀ a a', R a a' → p' a' = p a) : FoundAlike R (xs.find? p) (xs'.find? p') := by
  induction h with
  | nil => exact .none
  | @cons a a' xs xs' ha _ ih =>
    rw [List.find?_cons, List.find?_cons, hp a a' ha]
    cases p a with
    | true => exact .some ha
    | false => exact ih

/-- Links between cases correspond, or it is the same cases that two of them fall into. -/
abbrev LinksAlike (σ : BlockId → BlockId) :=
  ResultsAlike (fun e e' : CaseOrderError => e' = e.renumber σ) fun links links' => links' = renumberLinks σ links

section
variable {σ : BlockId → BlockId} (hσ : Function.Injective σ)
include hσ

theorem lookup_renumberLinks (links : List (BlockId × BlockId)) (b : BlockId) :
    (renumberLinks σ links).lookup (σ b) = (links.lookup b).map σ := by
  induction links with
  | nil => rfl
  | cons link links ih =>
    obtain ⟨next, before⟩ := link
    have hcons : renumberLinks σ ((next, before) :: links) = (σ next, σ before) :: renumberLinks σ links := rfl
    have hsame : (σ b == σ next) = (b == next) := by
      rw [Bool.eq_iff_iff, beq_iff_eq, beq_iff_eq, hσ.eq_iff]
    rw [hcons, List.lookup_cons, List.lookup_cons, ih, hsame]
    cases b == next <;> rfl

theorem linkBack_alike {a a' : SwitchArm} (h : SwitchArm.Alike σ a a') (links : List (BlockId × BlockId)) :
    LinksAlike σ (SwitchArm.linkBack links a) (SwitchArm.linkBack (renumberLinks σ links) a') := by
  unfold SwitchArm.linkBack
  rw [h.falls_eq]
  cases a.fallsInto? with
  | none => exact .ok rfl
  | some next =>
    dsimp only [Option.map_some]
    rw [lookup_renumberLinks hσ, h.target_eq]
    cases links.lookup next with
    | some other => exact .error rfl
    | none => exact .ok (by simp [renumberLinks])

theorem backLinks_alike {arms arms' : List SwitchArm} (h : List.Forall₂ (SwitchArm.Alike σ) arms arms') :
    LinksAlike σ (SwitchArm.backLinks arms) (SwitchArm.backLinks arms') := by
  suffices key : ∀ links, LinksAlike σ (arms.foldlM SwitchArm.linkBack links)
      (arms'.foldlM SwitchArm.linkBack (renumberLinks σ links)) from key []
  induction h with
  | nil => exact fun links => .ok rfl
  | cons ha _ ih =>
    intro links
    rw [List.foldlM_cons, List.foldlM_cons]
    refine (linkBack_alike hσ ha links).bind fun links links' hlinks => ?_
    exact hlinks ▸ ih links

theorem backEnds_renumberLinks (links : List (BlockId × BlockId)) (steps : Nat) (b : BlockId) :
    SwitchArm.backEnds (renumberLinks σ links) steps (σ b) = SwitchArm.backEnds links steps b := by
  induction steps generalizing b with
  | zero =>
    unfold SwitchArm.backEnds
    rw [lookup_renumberLinks hσ]
    cases links.lookup b <;> rfl
  | succ steps ih =>
    unfold SwitchArm.backEnds
    rw [lookup_renumberLinks hσ]
    cases links.lookup b with
    | none => rfl
    | some before => exact ih before

theorem find?_alike {arms arms' : List SwitchArm} (h : List.Forall₂ (SwitchArm.Alike σ) arms arms') (b : BlockId) :
    FoundAlike (SwitchArm.Alike σ) (SwitchArm.find? arms b) (SwitchArm.find? arms' (σ b)) := by
  refine foundAlike_find? h fun a a' ha => ?_
  rw [ha.target_eq, decide_eq_decide, hσ.eq_iff]

theorem chain_alike {arms arms' : List SwitchArm} (h : List.Forall₂ (SwitchArm.Alike σ) arms arms') (count : Nat)
    (b : BlockId) :
    List.Forall₂ (SwitchArm.Alike σ) (SwitchArm.chain arms count b) (SwitchArm.chain arms' count (σ b)) := by
  induction count generalizing b with
  | zero => exact .nil
  | succ count ih =>
    have hfound := find?_alike hσ h b
    unfold SwitchArm.chain
    generalize SwitchArm.find? arms b = found, SwitchArm.find? arms' (σ b) = found' at hfound ⊢
    cases hfound with
    | none => exact .nil
    | @some a a' ha =>
      dsimp only
      rw [ha.falls_eq]
      cases a.fallsInto? with
      | none => exact .cons ha .nil
      | some next => exact .cons ha (ih next)

/-- The same cases are put in the same order, or have none for the same reason. -/
theorem order_alike {arms arms' : List SwitchArm} (h : List.Forall₂ (SwitchArm.Alike σ) arms arms') :
    ResultsAlike (fun e e' : CaseOrderError => e' = e.renumber σ) (List.Forall₂ (SwitchArm.Alike σ))
      (SwitchArm.order arms) (SwitchArm.order arms') := by
  refine (backLinks_alike hσ h).bind fun links links' hlinks => ?_
  subst hlinks
  have hcircle : ∀ a a', SwitchArm.Alike σ a a' →
      (!SwitchArm.backEnds (renumberLinks σ links) arms'.length a'.target) =
        !SwitchArm.backEnds links arms.length a.target := by
    intro a a' ha
    rw [ha.target_eq, ← h.length_eq, backEnds_renumberLinks hσ]
  have hfound := foundAlike_find? h hcircle
  generalize arms.find? (fun a => !SwitchArm.backEnds links arms.length a.target) = found,
    arms'.find? (fun a => !SwitchArm.backEnds (renumberLinks σ links) arms'.length a.target) = found' at hfound ⊢
  cases hfound with
  | some ha => exact .error (congrArg CaseOrderError.circle ha.target_eq)
  | none =>
    have hheads : ∀ a a', SwitchArm.Alike σ a a' → ((links.lookup a.target).isNone = true ↔
        ((renumberLinks σ links).lookup a'.target).isNone = true) := by
      intro a a' ha
      rw [ha.target_eq, lookup_renumberLinks hσ, Option.isNone_map]
    refine .ok (List.rel_flatMap (List.rel_filter hheads h) fun a a' ha => ?_)
    rw [ha.target_eq, ← h.length_eq]
    exact chain_alike hσ h _ _

end

end FlowTree
