import FlowTree.Proofs.Tree.Explained

/-!
Loose ends are exact. The loose ends of a construct are the edges from its blocks to blocks that are not in it, since
they lead to exits of what is around and no block of the construct is one, but possibly its start. That the start is
not among them is known where the construct stands: the span around it does not lead back to its start. A switch case
accounts for the edges that leave the whole switch, since what falls into another case is not handed on.
-/

namespace FlowTree

open Sketch Structuring

/-- The exits record the edges from the inner blocks to blocks that are not among the outer ones, each once. -/
structure Accounts (g : FlowGraph) (exits : BlockExits) (inner outer : List BlockId) : Prop where
  neat : exits.Neat
  records_iff : ∀ v e, exits.Records v e ↔ (∃ u ∈ inner, (v, e) ∈ g.transfers u) ∧ v ∉ outer

/-- The exits of a node of this kind are about the node itself. -/
def Kind.accountsForItself : Kind → Bool
  | .root | .ifThen | .ifPart | .loop | .switch => true
  | _ => false

namespace Sketch

/-- The exits of every node in the sketch are exact. Cases stand in a switch and account for what leaves it. -/
inductive Accounted (g : FlowGraph) : Sketch → Prop
  | block (b : BlockId) : Accounted g (.block b)
  | node {kind : Kind} {exits : BlockExits} {parts : List Sketch}
    (here : kind.accountsForItself = true → Accounts g exits (blocksOf parts) (blocksOf parts))
    (cases : ∀ exits' parts', .node .case exits' parts' ∈ parts →
      kind = .switch ∧ Accounts g exits' (blocksOf parts') (blocksOf parts))
    (inside : ∀ s ∈ parts, Accounted g s) : Accounted g (.node kind exits parts)

/-- Every sketch is accounted for, and none is a case. -/
def AllAccounted (g : FlowGraph) (parts : List Sketch) : Prop :=
  ∀ s ∈ parts, Accounted g s ∧ view.kind? s ≠ some .case

section
variable {g : FlowGraph} {kind : Kind} {exits : BlockExits} {parts : List Sketch}

theorem AllAccounted.node (h : AllAccounted g parts)
    (here : kind.accountsForItself = true → Accounts g exits (blocksOf parts) (blocksOf parts)) :
    Accounted g (.node kind exits parts) :=
  .node here (fun _ _ hmem => absurd rfl (h _ hmem).2) fun s hs => (h s hs).1

theorem AllAccounted.cons_block (h : AllAccounted g parts) (b : BlockId) : AllAccounted g (.block b :: parts) :=
  List.forall_mem_cons.mpr ⟨⟨.block b, by simp [view]⟩, h⟩

theorem AllAccounted.append {xs ys : List Sketch} (hx : AllAccounted g xs) (hy : AllAccounted g ys) :
    AllAccounted g (xs ++ ys) :=
  List.forall_mem_append.mpr ⟨hx, hy⟩

theorem AllAccounted.part (h : AllAccounted g parts) (hkind : kind ≠ .case)
    (here : parts ≠ [] → kind.accountsForItself = true → Accounts g exits (blocksOf parts) (blocksOf parts)) :
    AllAccounted g (part kind exits parts) := by
  intro s hs
  unfold Sketch.part at hs
  split at hs
  · cases hs
  · rw [List.mem_singleton.mp hs]
    exact ⟨h.node (here (by simpa using ‹¬parts.isEmpty = true›)), by simpa [view] using hkind⟩

end

end Sketch

section
variable {g : FlowGraph} {R : SpanRelation} {exits : List BlockId} {b : BlockId} {loose : BlockExits}

/-- Loose ends are exact where none of them leads back into the blocks. -/
theorem Flow.accounts {blocks : List BlockId} (h : Flow g b blocks loose)
    (haway : ∀ v e, loose.Records v e → v ∉ blocks) : Accounts g loose blocks blocks where
  neat := h.neat
  records_iff v e :=
    ⟨fun he => ⟨h.sourced v e he, haway v e he⟩, fun ⟨⟨u, hu, he⟩, hv⟩ => (h.closed u hu v e he).resolve_left hv⟩

theorem SpanFacts.accounts {start : BlockId} {parts : List Sketch} (h : SpanFacts g exits start parts loose)
    (hstart : start ∉ exits) : Accounts g loose (blocksOf parts) (blocksOf parts) :=
  h.toFlow.accounts fun v e he hv => h.not_mem_exits hstart v hv (h.targets v e he)

theorem BranchFacts.eq_header {blocks : List BlockId} (h : BranchFacts g exits b blocks loose) {v : BlockId} {e : EdgeId}
    (he : loose.Records v e) (hv : v ∈ b :: blocks) : v = b := by
  rcases List.mem_cons.mp hv with rfl | hv
  · rfl
  · exact absurd (h.targets v e he) (h.outside v hv)

theorem Continues.eq_header (hR : SpanFactsOf g R) {m c : BlockId} {blocks : List BlockId} {body : BlockExits}
    {parts : List Sketch} (hbody : BranchFacts g (c :: m :: exits) b blocks body)
    (h : Continues R (b :: m :: exits) c body parts loose) {v : BlockId} {e : EdgeId} (he : loose.Records v e)
    (hv : v ∈ b :: blocks ++ blocksOf parts) : v = b := by
  cases h with
  | absent => exact hbody.eq_header he (by simpa using hv)
  | present _ hc hrun =>
    by_contra hne
    have hexit : v ∈ m :: exits := by
      rcases Exits.records_merge.mp he with he | he
      · obtain ⟨he, hvc⟩ := Exits.records_remove.mp he
        exact (List.mem_cons.mp (hbody.targets v e he)).resolve_left hvc
      · exact (List.mem_cons.mp ((hR hrun).targets v e he)).resolve_left hne
    rcases List.mem_append.mp hv with hv | hv
    · exact hbody.outside v ((List.mem_cons.mp hv).resolve_left hne) (List.mem_cons_of_mem _ hexit)
    · exact (hR hrun).not_mem_exits hc v hv (List.mem_cons_of_mem _ hexit)

/-- A construct leads back to its start at most. -/
theorem Constructs.eq_start (hg : g.Linked) (hR : SpanFactsOf g R) {sketch : Sketch}
    (h : Constructs g R exits b sketch loose) {v : BlockId} {e : EdgeId} (he : loose.Records v e)
    (hv : v ∈ sketch.blocks) : v = b := by
  cases h with
  | leaving => simpa using hv
  | plain => simpa using hv
  | loop _ _ _ _ _ body rest =>
    exact rest.eq_header hR (loopBranchFacts hR body) (Exits.records_remove.mp he).1 (by simpa using hv)
  | ifThen found _ _ _ ends labels resolved arms =>
    have hbranch := sideBranchFacts hg hR (hg.mem_successors_conditional found ends labels resolved) arms
    exact hbranch.eq_header he (by simpa [blocksOf_armParts] using hv)
  | switch found _ _ _ ends labels defaultBlock resolved targets_eq parsed same =>
    have hbranch := armBranchFacts hg hR (fun v => by
      rw [hg.mem_successors_switch found ends labels defaultBlock resolved, targets_eq, mem_switchTargets]) parsed same
    exact hbranch.eq_header he (by simpa using hv)

theorem Constructs.accounts (hg : g.Linked) (hR : SpanFactsOf g R) {sketch : Sketch}
    (h : Constructs g R exits b sketch loose) (hloose : ∀ e, ¬loose.Records b e) :
    Accounts g loose sketch.blocks sketch.blocks :=
  (h.facts hg hR).toFlow.accounts fun _ e he hv => hloose e (h.eq_start hg hR he hv ▸ he)

/-! ### What is nested -/

/-- What is in a span is accounted for unless an edge leads back to its start. -/
def SpanAccounted (g : FlowGraph) (R : SpanRelation) : Prop :=
  ∀ ⦃exits start parts loose⦄, R exits start parts loose → (blocksOf parts).Nodup → (∀ e, ¬loose.Records start e) →
    AllAccounted g parts

theorem Enters.accounted (hR : SpanFactsOf g R) (hA : SpanAccounted g R) {start : BlockId} {sources : List EdgeId}
    {parts : List Sketch} (h : Enters R exits start sources parts loose) (hnodup : (blocksOf parts).Nodup) :
    AllAccounted g parts := by
  cases h with
  | stop => simp [AllAccounted]
  | go hstart hrun => exact hA hrun hnodup fun e he => hstart ((hR hrun).targets start e he)

theorem Enters.accounts (hR : SpanFactsOf g R) {start : BlockId} {sources : List EdgeId} {parts : List Sketch}
    (h : Enters R exits start sources parts loose) (hne : parts ≠ []) :
    Accounts g loose (blocksOf parts) (blocksOf parts) := by
  cases h with
  | stop => exact absurd rfl hne
  | go hstart hrun => exact (hR hrun).accounts hstart

theorem Continues.accounted (hR : SpanFactsOf g R) (hA : SpanAccounted g R) {c : BlockId} {body : BlockExits}
    {parts : List Sketch} (h : Continues R exits c body parts loose) (hnodup : (blocksOf parts).Nodup) :
    AllAccounted g parts := by
  cases h with
  | absent => simp [AllAccounted]
  | present _ hstart hrun => exact hA hrun hnodup fun e he => hstart ((hR hrun).targets c e he)

/-- The cases of a switch hand on what leaves the switch. -/
theorem ArmOf.accounts {targets : List BlockId} {outer : List BlockId} (hR : SpanFactsOf g R) {t : BlockId} {a : ArmSketch}
    (h : ArmOf R targets exits t a) (hinner : ∀ v ∈ blocksOf a.parts, v ∈ outer) (htargets : ∀ v ∈ targets, v ∈ outer)
    (haway : ∀ v e, a.exits.Records v e → v ∉ outer) : Accounts g a.exits (blocksOf a.parts) outer := by
  have facts := hR h.span
  refine ⟨?_, fun v e => ⟨fun he => ⟨?_, haway v e he⟩, ?_⟩⟩
  · unfold ArmSketch.exits
    split
    · exact facts.neat
    · exact facts.neat.remove _
  · exact facts.sourced v e (h.records_exits.mp he).1
  · rintro ⟨⟨u, hu, he⟩, hv⟩
    have hrec := (facts.closed u hu v e he).resolve_left fun hmem => hv (hinner v hmem)
    exact h.records_exits.mpr ⟨hrec, fun hmem => hv (htargets v hmem)⟩

theorem Constructs.accounted_switch (hR : SpanFactsOf g R) (hA : SpanAccounted g R) {targets : List BlockId}
    {arms ordered : List ArmSketch}
    (parsed : List.Forall₂ (ArmOf R (targets.filter (· ∉ exits)) exits) (targets.filter (· ∉ exits)) arms)
    (same : ordered.Perm arms) (follows : Follows ordered) (hnodup : (blocksOf (ordered.map ArmSketch.sketch)).Nodup)
    (haccounts : Accounts g (switchExits g b targets exits arms) (b :: blocksOf (ordered.map ArmSketch.sketch))
      (b :: blocksOf (ordered.map ArmSketch.sketch))) :
    Accounted g (.node .switch (switchExits g b targets exits arms) (.block b :: ordered.map ArmSketch.sketch)) := by
  have hblocks : ∀ {a}, a ∈ ordered → ∀ v ∈ blocksOf a.parts, v ∈ blocksOf (.block b :: ordered.map ArmSketch.sketch) :=
    fun ha v hv => by
      rw [blocksOf_cons]
      exact List.mem_append_right _ (mem_blocksOf_arms.mpr ⟨_, ha, hv⟩)
  refine .node (fun _ => by simpa using haccounts) (fun exits' parts' hmem => ⟨rfl, ?_⟩) fun s hs => ?_
  · obtain ⟨a, ha, hcase⟩ := List.mem_map.mp ((List.mem_cons.mp hmem).resolve_left (by simp))
    obtain ⟨rfl, rfl⟩ : a.exits = exits' ∧ a.parts = parts' := by simpa [ArmSketch.sketch] using hcase
    obtain ⟨t, -, h⟩ := exists_armOf parsed same ha
    refine h.accounts hR (hblocks ha) (fun v hv => ?_) fun v e he => ?_
    · -- Every target starts a case of its own.
      obtain ⟨a', ha', h'⟩ := exists_of_mem_left parsed hv
      exact hblocks (same.mem_iff.mpr ha') v (hR h'.span).start_mem
    · -- What a case hands on is handed on by the switch.
      have hout := ((haccounts.records_iff v e).mp (records_switchExits.mpr (Or.inr ⟨a, same.mem_iff.mp ha, he⟩))).2
      simpa using hout
  · rcases List.mem_cons.mp hs with rfl | hs
    · exact .block b
    · obtain ⟨a, ha, rfl⟩ := List.mem_map.mp hs
      obtain ⟨hspan, hnodupParts, hself⟩ := arm_span hR parsed same follows hnodup ha
      exact (hA hspan hnodupParts hself).node (by simp [Kind.accountsForItself])

/-- What is in a construct is accounted for when what is in its spans is. -/
theorem Constructs.accounted (hg : g.Linked) (hR : SpanFactsOf g R) (hA : SpanAccounted g R) {sketch : Sketch}
    (h : Constructs g R exits b sketch loose) (hnodup : sketch.blocks.Nodup) (hloose : ∀ e, ¬loose.Records b e) :
    Accounted g sketch ∧ view.kind? sketch ≠ some .case := by
  have haccounts := h.accounts hg hR hloose
  cases h with
  | leaving => exact ⟨.block b, by simp [view]⟩
  | plain => exact ⟨.block b, by simp [view]⟩
  | @loop _ _ _ _ m c spans continuing loose _ _ _ _ _ body rest =>
    have hnodup' : (blocksOf (spans.flatMap (·.1)) ++ blocksOf continuing).Nodup := by
      simpa using (List.nodup_cons.mp (by simpa using hnodup)).2
    obtain ⟨hnodupBody, hnodupRest, -⟩ := List.nodup_append'.mp hnodup'
    have hbody : AllAccounted g (spans.flatMap (·.1)) := fun s hs => by
      obtain ⟨span, hspan, hs⟩ := List.mem_flatMap.mp hs
      obtain ⟨_, -, henter⟩ := exists_of_mem_right body hspan
      exact henter.accounted hR hA (nodup_span hnodupBody hspan) s hs
    have hbodyPart : AllAccounted g (part .loopBody {} (spans.flatMap (·.1))) :=
      hbody.part (by simp) (by simp [Kind.accountsForItself])
    have hcontinuePart : AllAccounted g (part .continuing {} continuing) :=
      (rest.accounted hR hA hnodupRest).part (by simp) (by simp [Kind.accountsForItself])
    exact ⟨((hbodyPart.append hcontinuePart).cons_block b).node fun _ => by simpa using haccounts, by simp [view]⟩
  | @ifThen _ _ _ _ _ _ m sides spans _ _ _ _ _ _ _ arms =>
    have hnodupArms : (blocksOf (spans.flatMap (·.1))).Nodup :=
      (List.nodup_cons.mp (by simpa [blocksOf_armParts] using hnodup)).2
    have hparts : AllAccounted g (spans.flatMap fun span => part .ifPart span.2 span.1) := fun s hs => by
      obtain ⟨span, hspan, hs⟩ := List.mem_flatMap.mp hs
      obtain ⟨_, -, henter⟩ := exists_of_mem_right arms hspan
      have hspan := henter.accounted hR hA (nodup_span hnodupArms hspan)
      exact hspan.part (by simp) (fun hne _ => henter.accounts hR hne) s hs
    exact ⟨(hparts.cons_block b).node fun _ => by simpa using haccounts, by simp [view]⟩
  | switch _ _ _ _ _ _ _ _ _ parsed same follows =>
    have hnodupArms := (List.nodup_cons.mp (by simpa using hnodup)).2
    exact ⟨accounted_switch hR hA parsed same follows hnodupArms (by simpa using haccounts), by simp [view]⟩

end

/-- What is in a span is accounted for. -/
theorem Spans.accounted {g : FlowGraph} (hg : g.Linked) (budget : Nat) : SpanAccounted g (Spans g budget) := by
  refine Spans.induction (fun {budget _ _ _ _} ih hchild hnone hnodup hloose => ?_)
    (fun {budget _ _ _ _ next _ _} ih hchild hnext hrest hnodup hloose => ?_) budget
  · have hends := not_records_of_kept hloose (by simp [hnone])
    exact List.forall_mem_singleton.mpr (hchild.accounted hg (Spans.facts hg budget) ih (by simpa using hnodup) hends)
  · have hfacts := Spans.facts hg budget
    rw [blocksOf_cons] at hnodup
    obtain ⟨hnodupChild, hnodupRest, hdisjoint⟩ := List.nodup_append'.mp hnodup
    have hends := (hchild.facts hg hfacts).not_records_start hnext (hfacts hrest) hdisjoint hloose
    have hback : ∀ e, ¬Exits.Records _ next e := fun e he => (of_onward_eq hnext).2.1 ((hfacts hrest).targets next e he)
    exact List.forall_mem_cons.mpr ⟨hchild.accounted hg hfacts ih hnodupChild hends, ih hrest hnodupRest hback⟩

end FlowTree
