import FlowTree.Proofs.Structuring.Rules
import FlowTree.Proofs.Tree.CaseOrder

/-!
The rule for structuring a switch. Its cases are drawn as spans first; only when all of them are known, and
with them the cases that they fall into, are they ordered and put into nodes.
-/

namespace FlowTree

open Sketch

/-- A switch case that is drawn, before it is put into a node. -/
structure ArmPieces where
  target : BlockId
  pieces : List Piece
  loose : BlockExits
  fallsInto? : Option BlockId

namespace ArmPieces

/-- What the case looks like. -/
def sketch (a : ArmPieces) : ArmSketch := ⟨a.target, a.pieces.map Piece.sketch, a.loose, a.fallsInto?⟩

/-- The case as it is ordered. -/
def arm (a : ArmPieces) : SwitchArm := ⟨a.target, a.pieces.map Piece.child, a.sketch.exits, a.fallsInto?⟩

end ArmPieces

namespace Structuring

section
variable {g : FlowGraph} {halts : Halt → Draft → Prop} {d d₀ : Draft} {nested : SpanOf} {R : SpanRelation}
  {targets exits : List BlockId} {depth : Nat}

/-- A case whose span falls into at most one other, or else there is a reason to reject. -/
theorem switchArm_ends (hg : g.Linked) {target : BlockId} (htarget : target < g.size) (htargets : ∀ t ∈ targets, t < g.size)
    (hspan : Runs (nested target (targets ++ exits) depth) d depth (R (targets ++ exits) target) halts)
    (hmany : ∀ parts loose, R (targets ++ exits) target parts loose →
      1 < (loose.targetList.filter (· ∈ targets)).length → ∀ r d', halts (.rejected r) d') :
    Ends (switchArm g nested targets exits depth target) d (fun arm d' => ∃ a : ArmPieces, arm = a.arm ∧
      (∀ p ∈ a.pieces, p.depth = depth) ∧ Drawn d d' a.pieces ∧ ArmOf R targets exits target a.sketch) halts := by
  refine Ends.bind (Ends.imp hspan ?_)
  rintro ⟨_, loose⟩ d' ⟨pieces, rfl, hdepth, hdrawn, hR⟩
  cases hreached : loose.targetList.filter (· ∈ targets) with
  | nil =>
    simp only [hreached]
    exact Ends.pure ⟨⟨target, pieces, loose, none⟩, rfl, hdepth, hdrawn, rfl, hR, hreached⟩
  | cons next more =>
    cases more with
    | nil =>
      simp only [hreached]
      exact Ends.pure ⟨⟨target, pieces, loose, some next⟩, rfl, hdepth, hdrawn, rfl, hR, hreached⟩
    | cons other more =>
      simp only [hreached]
      refine Ends.reject hg htarget (fun t ht => ?_) (hmany _ loose hR (by simp [hreached]) _ _)
      rw [← hreached, List.mem_filter, decide_eq_true_eq] at ht
      exact htargets t ht.2

theorem targets_eq_of_parsed {ts : List BlockId} {arms : List ArmPieces}
    (parsed : List.Forall₂ (fun t a => ArmOf R targets exits t a.sketch) ts arms) : ts = arms.map (·.target) := by
  rw [← List.forall₂_eq_eq_eq, List.forall₂_map_right_iff]
  exact parsed.imp fun t a h => h.target_eq.symm

/-- Cases that are parsed for distinct targets fall into each other only. -/
theorem wired_of_parsed {arms : List ArmPieces} (hnodup : targets.Nodup)
    (parsed : List.Forall₂ (fun t a => ArmOf R targets exits t a.sketch) targets arms) :
    SwitchArm.Wired (arms.map ArmPieces.arm) where
  distinct := by
    rw [List.map_map]
    exact targets_eq_of_parsed parsed ▸ hnodup
  listed := by
    intro arm harm next hnext
    obtain ⟨a, ha, rfl⟩ := List.mem_map.mp harm
    obtain ⟨t, -, harm⟩ := exists_of_mem_right parsed ha
    have hmem : next ∈ targets := (harm.fallsInto?_eq_some_iff.mp hnext).2
    obtain ⟨b, hb, hb'⟩ := exists_of_mem_left parsed hmem
    exact ⟨b.arm, List.mem_map_of_mem hb, hb'.target_eq⟩

/-- The cases of a switch, one after the other. -/
theorem switchArms_ends (hg : g.Linked) (htargets : ∀ t ∈ targets, t < g.size) (hready : Ready g halts d)
    (hspan : ∀ done t rest (arms : List ArmPieces) d', targets = done ++ t :: rest →
      List.Forall₂ (fun t a => ArmOf R targets exits t a.sketch) done arms →
      Visited g halts d (blocksOf (arms.flatMap (·.sketch.parts))) d' →
      Runs (nested t (targets ++ exits) depth) d' depth (R (targets ++ exits) t) halts)
    (hmany : ∀ t parts loose, R (targets ++ exits) t parts loose →
      1 < (loose.targetList.filter (· ∈ targets)).length → ∀ r d', halts (.rejected r) d') :
    Ends (targets.mapM (switchArm g nested targets exits depth)) d (fun arms d' => ∃ as : List ArmPieces,
      arms = as.map ArmPieces.arm ∧ (∀ a ∈ as, ∀ p ∈ a.pieces, p.depth = depth) ∧ Drawn d d' (as.flatMap (·.pieces)) ∧
      List.Forall₂ (fun t a => ArmOf R targets exits t a.sketch) targets as) halts := by
  refine Ends.mapM (I := fun done arms d' => ∃ as : List ArmPieces, arms = as.map ArmPieces.arm ∧
    (∀ a ∈ as, ∀ p ∈ a.pieces, p.depth = depth) ∧ Drawn d d' (as.flatMap (·.pieces)) ∧
    List.Forall₂ (fun t a => ArmOf R targets exits t a.sketch) done as)
    ⟨[], rfl, by simp, Drawn.refl d, .nil⟩ ?_
  rintro done t rest _ d' hitems ⟨as, rfl, hdepth, hdrawn, parsed⟩
  have ht : t ∈ targets := hitems ▸ by simp
  have hvisited : Visited g halts d (blocksOf (as.flatMap (·.sketch.parts))) d' :=
    hdrawn.visitedSince hready (by simp [List.map_flatMap, ArmPieces.sketch])
  refine (switchArm_ends hg (htargets t ht) htargets (hspan done t rest as d' hitems parsed hvisited) (hmany t)).imp ?_
  rintro _ d'' ⟨a, rfl, hdepth', hdrawn', harm⟩
  refine ⟨as ++ [a], by simp, ?_, by simpa using hdrawn.append hdrawn' hready, List.rel_append parsed (.cons harm .nil)⟩
  simpa [or_imp, forall_and] using ⟨hdepth, hdepth'⟩

/-- The nodes of ordered cases. -/
theorem addCases_ends (hready : Ready g halts d₀) {as : List ArmPieces} (hdrawn : Drawn d₀ d (as.flatMap (·.pieces)))
    (hdepth : ∀ a ∈ as, ∀ p ∈ a.pieces, p.depth = depth + 1) (hne : ∀ a ∈ as, a.pieces ≠ []) :
    Ends ((as.map ArmPieces.arm).mapM fun arm => addNode g .case arm.children depth arm.exits) d
      (fun ids d' => ∃ pieces : List Piece, pieces.map Piece.child = ids.map .node ∧ (∀ p ∈ pieces, p.depth = depth) ∧
        Drawn d₀ d' pieces ∧ pieces.map Piece.sketch = as.map (·.sketch.sketch)) halts := by
  rw [List.mapM_map]
  refine (Ends.mapM (I := fun done ids d' => ∃ (pieces : List Piece) (rest : List ArmPieces), as = done ++ rest ∧
    pieces.map Piece.child = ids.map .node ∧ (∀ p ∈ pieces, p.depth = depth) ∧
    Drawn d₀ d' (pieces ++ rest.flatMap (·.pieces)) ∧ pieces.map Piece.sketch = done.map (·.sketch.sketch))
    ⟨[], as, rfl, rfl, by simp, hdrawn, rfl⟩ ?_).imp ?_
  · rintro done a rest ids d' hitems ⟨pieces, rest', hrest', hchildren, hdepth', hdrawn', hsketches⟩
    obtain rfl : rest' = a :: rest := List.append_cancel_left (hrest'.symm.trans hitems)
    have ha : a ∈ as := hitems ▸ by simp
    have hfront : Drawn d₀ d' (a.pieces ++ (pieces ++ rest.flatMap (·.pieces))) := by
      refine hdrawn'.perm ?_
      rw [List.flatMap_cons]
      exact List.perm_append_comm_assoc ..
    have hnode := addNode_ends .case depth a.sketch.exits hready hfront (hne a ha)
      (shapeFault?_sequence rfl (by simpa using hne a ha)) (hdepth a ha)
    refine hnode.imp fun id d'' hd'' => ⟨pieces ++ [⟨.node id, depth, a.sketch.sketch⟩], rest, by simp [hitems],
      by simp [hchildren], ?_, hd''.perm ?_, by simp [hsketches]⟩
    · simpa [or_imp, forall_and] using hdepth'
    · rw [List.append_assoc]
      exact List.perm_middle.symm
  · rintro ids d' ⟨pieces, rest, hrest, hchildren, hdepth', hdrawn', hsketches⟩
    obtain rfl : rest = [] := by simpa using hrest
    exact ⟨pieces, hchildren, hdepth', by simpa using hdrawn', hsketches⟩

/-! ### Switches -/

theorem nodup_switchTargets (cases : List BlockId) (default : BlockId) : (switchTargets cases default).Nodup := by
  rw [switchTargets, List.nodup_append']
  refine ⟨nodup_eraseDups _, by simp, fun t ht hd => ?_⟩
  rw [List.mem_eraseDups, List.mem_filter, decide_eq_true_eq] at ht
  exact ht.2 (List.mem_singleton.mp hd)

theorem switchTargets_lt {defaultLabel : Id} {cases : List SwitchCase} {default : BlockId} {caseBlocks : List BlockId}
    (defaultBlock : g.blockOf? defaultLabel = some default)
    (resolved : cases.mapM (fun case => g.blockOf? case.target) = some caseBlocks) {t : BlockId}
    (ht : t ∈ switchTargets caseBlocks default) : t < g.size := by
  rcases mem_switchTargets.mp ht with ht | rfl
  · obtain ⟨case, -, hcase⟩ := exists_of_mem_right (forall₂_of_mapM_some resolved) ht
    exact FlowGraph.blockOf?_lt hcase
  · exact FlowGraph.blockOf?_lt defaultBlock

/-- The rejection of cases that have no order. -/
def caseRejection (g : FlowGraph) : CaseOrderError → Rejection
  | .shared case first second =>
    .atBlock g .unstructured case "more than one case falls through into this case" [first, second]
  | .circle case => .atBlock g .caseLoop case "" []

/-- Cases that start at blocks of the graph are put in order, or they are rejected. -/
theorem orderCases_ends (hg : g.Linked) {arms : List SwitchArm} (hwired : SwitchArm.Wired arms)
    (hblocks : ∀ arm ∈ arms, arm.target < g.size) {ok : List SwitchArm → Draft → Prop}
    (hok : ∀ ordered, SwitchArm.order arms = .ok ordered → ok ordered d)
    (herror : ∀ e, SwitchArm.order arms = .error e → halts (.rejected (caseRejection g e)) d) :
    Ends (orderCases g arms) d ok halts := by
  unfold orderCases
  cases horder : SwitchArm.order arms with
  | error e =>
    have hcases : ∀ t ∈ SwitchArm.errorCases e, t < g.size := fun t ht => by
      obtain ⟨arm, hmem, rfl⟩ := SwitchArm.order_error hwired horder t ht
      exact hblocks arm hmem
    cases e with
    | shared case first second =>
      simp only [SwitchArm.errorCases, List.forall_mem_cons] at hcases
      exact Ends.reject hg hcases.1 (by simpa using hcases.2) (herror _ horder)
    | circle case =>
      exact Ends.reject hg (hcases case (by simp [SwitchArm.errorCases])) (by simp) (herror _ horder)
  | ok ordered => exact Ends.pure (hok ordered horder)

/-- Cases in another order come from drawn cases in that order. -/
theorem exists_ordered {as : List ArmPieces} {ordered : List SwitchArm} (h : ordered.Perm (as.map ArmPieces.arm)) :
    ∃ as' : List ArmPieces, as'.Perm as ∧ ordered = as'.map ArmPieces.arm := by
  have hpairs : List.Forall₂ (fun arm a => arm = ArmPieces.arm a) (as.map ArmPieces.arm) as := by
    rw [List.forall₂_map_left_iff]
    exact List.forall₂_same.mpr fun _ _ => rfl
  obtain ⟨as', hpairs', hperm⟩ := List.perm_comp_forall₂ h hpairs
  refine ⟨as', hperm, ?_⟩
  rw [← List.forall₂_eq_eq_eq, List.forall₂_map_right_iff]
  exact hpairs'

/-- The node of a switch is put together from its header and its cases. -/
theorem addSwitch_runs {b : BlockId} (ends : BlockExits) {nodes : List Piece} {ids : List NodeId}
    {arms : List ArmPieces} (hready : Ready g halts d₀) (hdrawn : Drawn d₀ d (Piece.block b (depth + 1) :: nodes))
    (hchildren : nodes.map Piece.child = ids.map .node) (hdepth : ∀ p ∈ nodes, p.depth = depth + 1)
    (hsketches : nodes.map Piece.sketch = arms.map (·.sketch.sketch)) :
    RunsOne (do
      let id ← addNode g .switch (.block b :: ids.map .node) depth ends
      Pure.pure (Child.node id, ends)) d₀ d depth (fun sketch ends' => ends' = ends ∧
        sketch = .node .switch ends (.block b :: arms.map (·.sketch.sketch))) halts := by
  have hall : Drawn d₀ d ((Piece.block b (depth + 1) :: nodes) ++ []) := by simpa using hdrawn
  have hkinds : ∀ s ∈ nodes.map Piece.sketch, s.isOfKind .case = true := fun s hs => by
    rw [hsketches] at hs
    obtain ⟨a, -, rfl⟩ := List.mem_map.mp hs
    simp [Sketch.isOfKind, ArmSketch.sketch]
  have hshape := shapeFault?_switch b (hall.isOfKind hkinds fun p hp => by simp [hp])
  have hnode := addNode_ends .switch depth ends hready hall (by simp) (by simpa [Piece.block] using hshape)
    (by simpa [Piece.block] using hdepth)
  rw [List.map_cons, hchildren] at hnode
  refine Ends.bind (hnode.imp fun id d' hd' => Ends.pure ⟨_, rfl, rfl, hd', rfl, ?_⟩)
  simp [Piece.block, hsketches]

/-- A switch whose cases are nested spans. The header has been visited since `d₀`. -/
theorem switch_runs (hg : g.Linked) {b : BlockId} {terminator : Instruction} {defaultLabel : Id}
    {cases : List SwitchCase} {default : BlockId} {caseBlocks : List BlockId}
    (labels : terminator.switchCases? = some (defaultLabel, cases))
    (defaultBlock : g.blockOf? defaultLabel = some default)
    (resolved : cases.mapM (fun case => g.blockOf? case.target) = some caseBlocks)
    (htargets : targets = (switchTargets caseBlocks default).filter (· ∉ exits))
    (hready : Ready g halts d₀) (hdrawn : Drawn d₀ d [Piece.block b (depth + 1)])
    (hspan : ∀ done t rest (arms : List ArmPieces) d', targets = done ++ t :: rest →
      List.Forall₂ (fun t a => ArmOf R targets exits t a.sketch) done arms →
      Visited g halts d (blocksOf (arms.flatMap (·.sketch.parts))) d' →
      Runs (nested t (targets ++ exits) (depth + 2)) d' (depth + 2) (R (targets ++ exits) t) halts)
    (hne : ∀ t parts loose, R (targets ++ exits) t parts loose → parts ≠ [])
    (hmany : ∀ t parts loose, R (targets ++ exits) t parts loose →
      1 < (loose.targetList.filter (· ∈ targets)).length → ∀ r d', halts (.rejected r) d')
    (horder : ∀ as : List ArmPieces, List.Forall₂ (fun t a => ArmOf R targets exits t a.sketch) targets as →
      ∀ e, SwitchArm.order (as.map ArmPieces.arm) = .error e → ∀ r d', halts (.rejected r) d') :
    RunsOne (switch g nested b terminator exits depth) d₀ d depth (fun sketch ends => ∃ as as' : List ArmPieces,
      List.Forall₂ (fun t a => ArmOf R targets exits t a.sketch) targets as ∧ as'.Perm as ∧
      SwitchArm.order (as.map ArmPieces.arm) = .ok (as'.map ArmPieces.arm) ∧
      ends = switchExits g b (switchTargets caseBlocks default) exits (as.map (·.sketch)) ∧
      sketch = .node .switch ends (.block b :: as'.map (·.sketch.sketch))) halts := by
  have hready' := hdrawn.ready hready
  have hnodup : targets.Nodup := htargets ▸ (nodup_switchTargets caseBlocks default).filter _
  have hlt : ∀ t ∈ targets, t < g.size := fun t ht => by
    rw [htargets] at ht
    exact switchTargets_lt defaultBlock resolved (List.mem_filter.mp ht).1
  unfold switch
  simp only [labels]
  refine Ends.bind (Ends.blockOf defaultBlock (Ends.bind (Ends.mapM_blockOf resolved (Ends.bind ?_))))
  rw [← htargets]
  refine (switchArms_ends hg hlt hready' hspan hmany).imp ?_
  rintro _ d₁ ⟨as, rfl, hdepth, hpieces, parsed⟩
  have hwired := wired_of_parsed hnodup parsed
  have hloose : (as.map ArmPieces.arm).foldl (fun x arm => x.merge arm.exits)
      ((((switchTargets caseBlocks default).filter (· ∈ exits)).foldl
        (fun x t => x.addAll t (g.edgeBetween? b t).toList) ({} : BlockExits))) =
      switchExits g b (switchTargets caseBlocks default) exits (as.map (·.sketch)) := by
    simp [switchExits, directExits, List.foldl_map, ArmPieces.arm]
  rw [hloose]
  have hblocks : ∀ arm ∈ as.map ArmPieces.arm, arm.target < g.size := List.forall_mem_map.mpr fun a ha => by
    obtain ⟨t, ht, harm⟩ := exists_of_mem_right parsed ha
    exact Nat.lt_of_le_of_lt (Nat.le_of_eq harm.target_eq) (hlt t ht)
  -- The loose ends do not depend on the order, which only settles how the cases stand.
  refine Ends.bind (orderCases_ends hg hwired hblocks (fun ordered horder' => ?_) fun e he => horder as parsed e he _ _)
  obtain ⟨as', hperm, rfl⟩ := exists_ordered (SwitchArm.order_ok hwired horder').1
  have hmem : ∀ a ∈ as', a ∈ as := fun a ha => hperm.mem_iff.mp ha
  have hne' : ∀ a ∈ as', a.pieces ≠ [] := fun a ha => by
    obtain ⟨t, -, harm⟩ := exists_of_mem_right parsed (hmem a ha)
    simpa [ArmPieces.sketch] using hne t _ _ harm.span
  refine Ends.bind ((addCases_ends hready' (hpieces.perm (hperm.symm.flatMap_right _))
    (fun a ha => hdepth a (hmem a ha)) hne').imp ?_)
  rintro ids d₂ ⟨nodes, hchildren, hdepth', hnodes, hsketches⟩
  refine Ends.imp (addSwitch_runs _ hready (hdrawn.append hnodes hready) hchildren hdepth' hsketches) ?_
  rintro ⟨_, _⟩ _ ⟨piece, hchild, hdepth, hpiece, rfl, hsketch⟩
  exact ⟨piece, hchild, hdepth, hpiece, as, as', parsed, hperm, horder', rfl, hsketch⟩

end

end Structuring
end FlowTree
