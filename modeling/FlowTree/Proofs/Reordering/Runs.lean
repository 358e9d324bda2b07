import FlowTree.Proofs.Reordering.Agreement

/-!
Structuring two graphs that have the same blocks under different numbers. Each construct is structured alike in both, given
that the spans nested in it are; by induction on the budget so are all spans, and the whole graphs (`root_agree`).
-/

namespace FlowTree
namespace Structuring

/-- The spans have the same children and the same loose ends, up to the numbers of blocks. -/
structure SpansAlike (σ : BlockId → BlockId) (r r' : SpanResult) : Prop where
  children_eq : r'.1 = r.1.map (Child.renumber σ)
  exits : Exits.Alike σ r.2 r'.2

/-- The constructs are the same child and have the same loose ends, up to the numbers of blocks. -/
structure ConstructsAlike (σ : BlockId → BlockId) (r r' : Child × BlockExits) : Prop where
  child_eq : r'.1 = r.1.renumber σ
  exits : Exits.Alike σ r.2 r'.2

/-- Nested spans are structured alike. -/
def NestedAgree (σ : BlockId → BlockId) (nested nested' : SpanOf) : Prop :=
  ∀ start exits depth, Agree σ (SpansAlike σ) (nested start exits depth) (nested' (σ start) (exits.map σ) depth)

section
variable {σ : BlockId → BlockId} {g g' : FlowGraph}

theorem forall₂_map (f : BlockId → BlockId) (bs : List BlockId) : List.Forall₂ (fun b b' => b' = f b) bs (bs.map f) :=
  List.forall₂_map_right_iff.mpr (List.forall₂_same.mpr fun _ _ => rfl)

theorem addPart_agree (g g' : FlowGraph) (kind : Kind) (children : List Child) (depth : Nat) (exits exits' : BlockExits) :
    Agree σ (fun cs cs' => cs' = cs.map (Child.renumber σ)) (addPart g kind children depth exits)
      (addPart g' kind (children.map (Child.renumber σ)) depth exits') := by
  unfold addPart
  rw [List.isEmpty_map]
  split
  · exact Agree.pure rfl
  · refine (addNode_agree g g' kind children depth exits exits').bind ?_
    rintro id _ rfl
    exact Agree.pure rfl

theorem addConstruct_agree (g g' : FlowGraph) (kind : Kind) (depth : Nat) {children children' : List Child}
    {loose loose' : BlockExits} (hchildren : children' = children.map (Child.renumber σ))
    (hloose : Exits.Alike σ loose loose') : Agree σ (ConstructsAlike σ)
      (do
        let id ← addNode g kind children depth loose
        pure (Child.node id, loose))
      (do
        let id ← addNode g' kind children' depth loose'
        pure (Child.node id, loose')) := by
  subst hchildren
  refine (addNode_agree g g' kind children depth loose loose').bind ?_
  rintro id _ rfl
  exact Agree.pure ⟨rfl, hloose⟩

variable (hg : Renumbers g g' σ) {nested nested' : SpanOf} (hnested : NestedAgree σ nested nested')
include hg

theorem blockExits_agree (b : BlockId) : Agree σ (Exits.Alike σ) (blockExits g b) (blockExits g' (σ b)) := by
  refine (Agree.terminatorOf hg b).bind ?_
  rintro terminator _ rfl
  split
  · exact Agree.pure (Exits.alike_nil σ _ _)
  · refine (Agree.outgoing hg b).bind fun edges edges' hedges => ?_
    refine Agree.foldlM hedges (fun x x' e e' hx he => ?_) (Exits.alike_nil σ [] [])
    refine (Agree.targetOf he).bind ?_
    rintro target _ rfl
    exact Agree.pure (hx.add hg.injective e e')

include hnested

theorem enter_agree (start : BlockId) {sources sources' : List EdgeId} {exits : List BlockId}
    (hsources : start ∈ exits → (sources = [] ↔ sources' = [])) (depth : Nat) : Agree σ (SpansAlike σ)
      (enter nested start sources exits depth) (enter nested' (σ start) sources' (exits.map σ) depth) := by
  unfold enter
  simp only [List.mem_map_of_injective hg.injective]
  split
  · exact Agree.pure ⟨rfl, (Exits.alike_nil σ [] []).addAll hg.injective (hsources ‹_›)⟩
  · exact hnested start exits depth

theorem loopSpans_agree (header : BlockId) (exits : List BlockId) (depth : Nat) :
    Agree σ (SpansAlike σ) (loopSpans g nested header exits depth)
      (loopSpans g' nested' (σ header) (exits.map σ) depth) := by
  refine (Agree.outgoing hg header).bind fun edges edges' hedges => ?_
  refine Agree.foldlM hedges (fun r r' e e' hr he => ?_) ⟨rfl, Exits.alike_nil σ [] []⟩
  obtain ⟨body, loose⟩ := r
  obtain ⟨_, loose'⟩ := r'
  obtain ⟨rfl, hloose⟩ := hr
  refine (Agree.targetOf he).bind ?_
  rintro target _ rfl
  refine (enter_agree hg hnested target (by simp) depth).bind ?_
  rintro ⟨children, ends⟩ ⟨_, ends'⟩ ⟨rfl, hends⟩
  exact Agree.pure ⟨by simp, hloose.merge hg.injective hends⟩

theorem loop_agree (header : BlockId) (merge : Instruction) (exits : List BlockId) (depth : Nat) :
    Agree σ (ConstructsAlike σ) (loop g nested header merge exits depth)
      (loop g' nested' (σ header) merge (exits.map σ) depth) := by
  have hσ := hg.injective
  unfold loop
  split
  · exact Agree.failLeft _ _
  refine (Agree.blockOf hg _).bind ?_
  rintro mergeBlock _ rfl
  refine (Agree.blockOf hg _).bind ?_
  rintro continueTarget _ rfl
  refine (loopSpans_agree hg hnested header (continueTarget :: mergeBlock :: exits) (depth + 2)).bind ?_
  rintro ⟨body, loose⟩ ⟨_, loose'⟩ ⟨rfl, hloose⟩
  refine (addPart_agree g g' .loopBody body (depth + 1) {} {}).bind ?_
  rintro bodyPart _ rfl
  have hcontinues : (loose'.has (σ continueTarget) && decide (σ continueTarget ∉ σ header :: σ mergeBlock :: exits.map σ)) =
      (loose.has continueTarget && decide (continueTarget ∉ header :: mergeBlock :: exits)) := by
    rw [hloose.has_eq hσ, ← List.map_cons, ← List.map_cons]
    congr 1
    exact decide_eq_decide.mpr (List.mem_map_of_injective hσ).not
  dsimp only
  rw [hcontinues]
  split
  · rename_i hpresent
    obtain ⟨-, hinside⟩ := Bool.and_eq_true_iff.mp hpresent
    -- The continue target is no exit here, so it does not matter which edges lead to it.
    have hnotExit : continueTarget ∉ header :: mergeBlock :: exits := of_decide_eq_true hinside
    refine (enter_agree hg hnested continueTarget (fun hexit => absurd hexit hnotExit) (depth + 2)).bind ?_
    rintro ⟨span, ends⟩ ⟨_, ends'⟩ ⟨rfl, hends⟩
    refine (addPart_agree g g' .continuing span (depth + 1) {} {}).bind ?_
    rintro part _ rfl
    exact addConstruct_agree g g' .loop depth (by simp [Child.renumber])
      (((hloose.remove hσ continueTarget).merge hσ hends).remove hσ header)
  · exact addConstruct_agree g g' .loop depth (by simp [Child.renumber]) (hloose.remove hσ header)

theorem ifThen_agree (header : BlockId) (terminator : Instruction) (exits : List BlockId) (depth : Nat) :
    Agree σ (ConstructsAlike σ) (ifThen g nested header terminator exits depth)
      (ifThen g' nested' (σ header) terminator (exits.map σ) depth) := by
  unfold ifThen
  split
  · exact Agree.failLeft _ _
  refine (Agree.mapM_blockOf hg id _).bind ?_
  rintro sides _ rfl
  refine (Agree.foldlM (S := SpansAlike σ) (forall₂_map σ sides) (fun r r' side side' hr hside => ?_)
    ⟨rfl, Exits.alike_nil σ [] []⟩).bind ?_
  · subst hside
    obtain ⟨arms, loose⟩ := r
    obtain ⟨_, loose'⟩ := r'
    obtain ⟨rfl, hloose⟩ := hr
    refine (enter_agree hg hnested side (fun _ => hg.edgeBetween?_toList_eq_nil header side) (depth + 2)).bind ?_
    rintro ⟨span, ends⟩ ⟨_, ends'⟩ ⟨rfl, hends⟩
    refine (addPart_agree g g' .ifPart span (depth + 1) ends ends').bind ?_
    rintro arm _ rfl
    exact Agree.pure ⟨by simp, hloose.merge hg.injective hends⟩
  · rintro ⟨arms, loose⟩ ⟨_, loose'⟩ ⟨rfl, hloose⟩
    exact addConstruct_agree g g' .ifThen depth rfl hloose

omit hg hnested in
theorem switchTargets_map (hσ : Function.Injective σ) (cases : List BlockId) (default : BlockId) :
    switchTargets (cases.map σ) (σ default) = (switchTargets cases default).map σ := by
  unfold switchTargets
  rw [filter_ne_map hσ, eraseDups_map hσ, List.map_append, List.map_singleton]

theorem switchArm_agree (targets exits : List BlockId) (depth : Nat) (target : BlockId) :
    Agree σ (SwitchArm.Alike σ) (switchArm g nested targets exits depth target)
      (switchArm g' nested' (targets.map σ) (exits.map σ) depth (σ target)) := by
  unfold switchArm
  rw [← List.map_append]
  refine (hnested target (targets ++ exits) depth).bind ?_
  rintro ⟨children, ends⟩ ⟨_, ends'⟩ ⟨rfl, hends⟩
  have hreached : ends'.targetList.filter (· ∈ targets.map σ) = (ends.targetList.filter (· ∈ targets)).map σ := by
    rw [hends.targets_eq, filter_mem_map hg.injective]
  dsimp only
  rw [hreached]
  cases ends.targetList.filter (· ∈ targets) with
  | nil => exact Agree.pure ⟨rfl, rfl, hends, rfl⟩
  | cons next rest =>
    cases rest with
    | nil => exact Agree.pure ⟨rfl, rfl, hends.remove hg.injective next, rfl⟩
    | cons second rest => exact Agree.reject hg .multipleCases target "" (next :: second :: rest)

omit hnested in
theorem direct_alike (header : BlockId) (targets : List BlockId) :
    Exits.Alike σ (targets.foldl (fun x t => x.addAll t (g.edgeBetween? header t).toList) {})
      ((targets.map σ).foldl (fun x t => x.addAll t (g'.edgeBetween? (σ header) t).toList) {}) := by
  suffices key : ∀ {x x' : BlockExits}, Exits.Alike σ x x' →
      Exits.Alike σ (targets.foldl (fun x t => x.addAll t (g.edgeBetween? header t).toList) x)
        ((targets.map σ).foldl (fun x t => x.addAll t (g'.edgeBetween? (σ header) t).toList) x') from
    key (Exits.alike_nil σ [] [])
  induction targets with
  | nil => exact fun hx => hx
  | cons t targets ih => exact fun hx => ih (hx.addAll hg.injective (hg.edgeBetween?_toList_eq_nil header t))

omit hnested in
theorem mergeArms_alike {arms arms' : List SwitchArm} (h : List.Forall₂ (SwitchArm.Alike σ) arms arms') {x x' : BlockExits}
    (hx : Exits.Alike σ x x') :
    Exits.Alike σ (arms.foldl (fun x arm => x.merge arm.exits) x) (arms'.foldl (fun x arm => x.merge arm.exits) x') := by
  induction h generalizing x x' with
  | nil => exact hx
  | cons ha _ ih => exact ih (hx.merge hg.injective ha.exits)

omit hnested in
theorem orderCases_agree {arms arms' : List SwitchArm} (h : List.Forall₂ (SwitchArm.Alike σ) arms arms') :
    Agree σ (List.Forall₂ (SwitchArm.Alike σ)) (orderCases g arms) (orderCases g' arms') := by
  have horder := order_alike hg.injective h
  unfold orderCases
  generalize SwitchArm.order arms = order, SwitchArm.order arms' = order' at horder ⊢
  cases horder with
  | @error e _ h =>
    subst h
    cases e with
    | shared case first second => exact Agree.reject hg .unstructured case _ [first, second]
    | circle case => exact Agree.reject hg .caseLoop case "" []
  | ok hordered => exact Agree.pure hordered

theorem switch_agree (header : BlockId) (terminator : Instruction) (exits : List BlockId) (depth : Nat) :
    Agree σ (ConstructsAlike σ) (switch g nested header terminator exits depth)
      (switch g' nested' (σ header) terminator (exits.map σ) depth) := by
  have hσ := hg.injective
  unfold switch
  split
  · exact Agree.failLeft _ _
  refine (Agree.blockOf hg _).bind ?_
  rintro default _ rfl
  refine (Agree.mapM_blockOf hg SwitchCase.target _).bind ?_
  rintro caseBlocks _ rfl
  dsimp only
  rw [switchTargets_map hσ, filter_mem_map hσ, filter_notMem_map hσ]
  refine (Agree.mapM (forall₂_map σ _) fun target _ htarget =>
    htarget ▸ switchArm_agree hg hnested _ exits (depth + 2) target).bind fun arms arms' harms => ?_
  have hloose := mergeArms_alike hg harms (direct_alike hg header ((switchTargets caseBlocks default).filter (· ∈ exits)))
  refine (orderCases_agree hg harms).bind fun ordered ordered' hordered => ?_
  refine (Agree.mapM (S := (· = ·)) hordered fun arm arm' harm => ?_).bind fun nodes nodes' hnodes => ?_
  · rw [harm.children_eq]
    exact addNode_agree g g' .case arm.children (depth + 1) arm.exits arm'.exits
  · rw [List.forall₂_eq_eq_eq] at hnodes
    subst hnodes
    exact addConstruct_agree g g' .switch depth (by simp [Child.renumber]) hloose

theorem selection_agree (header : BlockId) (merge : Instruction) (exits : List BlockId) (depth : Nat) :
    Agree σ (ConstructsAlike σ) (selection g nested header merge exits depth)
      (selection g' nested' (σ header) merge (exits.map σ) depth) := by
  unfold selection
  split
  · exact Agree.failLeft _ _
  refine (Agree.blockOf hg _).bind ?_
  rintro mergeBlock _ rfl
  refine (Agree.terminatorOf hg header).bind ?_
  rintro terminator _ rfl
  split
  · exact ifThen_agree hg hnested header terminator (mergeBlock :: exits) depth
  · exact switch_agree hg hnested header terminator (mergeBlock :: exits) depth
  · exact Agree.reject hg .invalidTermination header "" []

theorem construct_agree (b : BlockId) (exits : List BlockId) (depth : Nat) :
    Agree σ (ConstructsAlike σ) (construct g nested b exits depth) (construct g' nested' (σ b) (exits.map σ) depth) := by
  refine (visit_agree hg b).bind fun _ _ _ => (Agree.block hg b).bind ?_
  rintro block _ rfl
  split
  · exact (blockExits_agree hg b).bind fun loose loose' hloose => Agree.pure ⟨rfl, hloose⟩
  · split
    · exact loop_agree hg hnested b _ exits depth
    · exact selection_agree hg hnested b _ exits depth

end

section
variable {σ : BlockId → BlockId} {g g' : FlowGraph} (hg : Renumbers g g' σ)
include hg

theorem span_agree (budget : Nat) : NestedAgree σ (span g budget) (span g' budget) := by
  -- Both runs have the same budget, so they also run out of it together.
  induction budget with
  | zero => exact fun _ _ _ => Agree.failLeft _ _
  | succ budget ih =>
    intro start exits depth
    refine (construct_agree hg ih start exits depth).bind ?_
    rintro ⟨child, loose⟩ ⟨_, loose'⟩ ⟨rfl, hloose⟩
    dsimp only
    rw [hloose.onward_eq hg.injective]
    cases onward exits loose with
    | nil => exact Agree.pure ⟨rfl, hloose.kept hg.injective exits⟩
    | cons next rest =>
      cases rest with
      | nil =>
        refine (ih next exits depth).bind ?_
        rintro ⟨children, ends⟩ ⟨_, ends'⟩ ⟨rfl, hends⟩
        exact Agree.pure ⟨rfl, (hloose.kept hg.injective exits).merge hg.injective hends⟩
      | cons second rest => exact Agree.reject hg .unstructured start _ [next, second]

/-- Whole graphs are structured alike. -/
theorem root_agree : Agree σ (· = ·) (root g) (root g') := by
  unfold root
  rw [hg.size_eq, ← hg.entry_eq]
  refine (span_agree hg (g.size + 1) g.entry [] 1).bind ?_
  rintro ⟨children, loose⟩ ⟨_, loose'⟩ ⟨rfl, hloose⟩
  dsimp only
  split
  · split
    · exact addNode_agree g g' .root children 0 loose loose'
    · exact Agree.failRight _ _
  · exact Agree.failLeft _ _

end

end Structuring
end FlowTree
