import FlowTree.Proofs.Structuring.Cases

/-!
What structuring gives. The spans and the constructs of a run are those of `Spans` and `Constructs`, drawn
into the draft; a run that gives nothing was rejected, unless a block had a place before. No lookup fails and
no node has the wrong shape. The budget suffices as long as it is more than the blocks that are left to
visit, since every span visits its start before it comes to a nested one.
-/

namespace FlowTree

open Sketch

namespace Structuring

section
variable {g : FlowGraph} {halts : Halt → Draft → Prop} {d d₀ : Draft} {nested : SpanOf} {R : SpanRelation}
  {budget : Nat} {b : BlockId} {block : Block} {exits : List BlockId} {depth : Nat}

/-- Structuring nested spans gives what the relation says, as long as the blocks to visit are fewer than the
budget. -/
def Sound (g : FlowGraph) (halts : Halt → Draft → Prop) (budget : Nat) (nested : SpanOf) (R : SpanRelation) : Prop :=
  ∀ ⦃start exits depth d⦄, start < g.size → Ready g halts d → d.unvisited.length < budget →
    Runs (nested start exits depth) d depth (R exits start) halts

theorem Visited.length_lt {d' : Draft} {blocks : List BlockId} (h : Visited g halts d blocks d')
    (hlength : d.unvisited.length < budget) : d'.unvisited.length < budget := by
  have := h.perm.length_eq
  rw [List.length_append] at this
  omega

/-- Once a block is visited there are fewer blocks to visit. -/
theorem Visited.length_lt_of_mem {d' : Draft} {blocks : List BlockId} (h : Visited g halts d blocks d') (hb : b ∈ blocks)
    (hlength : d.unvisited.length < budget + 1) : d'.unvisited.length < budget := by
  have hsum := h.perm.length_eq
  have hpos := List.length_pos_of_mem hb
  rw [List.length_append] at hsum
  omega

/-- A block on its own, with what it leaves. -/
theorem plain_ends (hg : g.Linked) (found : g.block? b = some block) (plain : block.merge? = none)
    (hdrawn : ∀ depth, Drawn d₀ d [Piece.block b depth]) :
    RunsOne (do let loose ← blockExits g b; Pure.pure (.block b, loose)) d₀ d depth (Constructs g R exits b) halts := by
  refine Ends.bind (blockExits_ends hg found (Ends.pure ⟨Piece.block b depth, rfl, rfl, hdrawn depth, ?_⟩))
  by_cases hleaves : block.isLeaving = true
  · simpa [hleaves, Piece.block] using Constructs.leaving found plain hleaves
  · simpa [hleaves, Piece.block] using Constructs.plain found plain (by simpa using hleaves)

theorem enter_sound (hnested : Sound g halts budget nested R) {start : BlockId} {sources : List EdgeId}
    (hstart : start < g.size) (hready : Ready g halts d) (hlength : d.unvisited.length < budget) :
    Runs (enter nested start sources exits depth) d depth (Enters R exits start sources) halts :=
  enter_runs .stop fun hgo => (hnested hstart hready hlength).imp fun _ _ h => .go hgo h

theorem loop_sound (hg : g.Linked) (hnested : Sound g halts budget nested R) {merge : Instruction}
    (found : g.block? b = some block) (merges : block.merge? = some merge) (hop : merge.op = .loopMerge)
    (hready : Ready g halts d₀) (hdrawn : Drawn d₀ d [Piece.block b (depth + 1)])
    (hlength : d.unvisited.length < budget) :
    RunsOne (loop g nested b merge exits depth) d₀ d depth (Constructs g R exits b) halts := by
  obtain ⟨mergeLabel, continueLabel, m, c, labels, mergeBlock, continueBlock⟩ := hg.loopMerge found merges hop
  have hbody : Runs (loopSpans g nested b (c :: m :: exits) (depth + 2)) d (depth + 2) (fun parts loose => ∃ spans,
      List.Forall₂ (fun transfer span => Enters R (c :: m :: exits) transfer.1 [transfer.2] span.1 span.2)
        (g.transfers b) spans ∧ parts = spans.flatMap (·.1) ∧ loose = mergeAll {} spans) halts := by
    refine loopSpans_runs hg (FlowGraph.lt_of_block?_eq_some found) (hdrawn.ready hready)
      fun done t rest spans d' hitems _ hvisited => ?_
    have ht : (t.1, t.2) ∈ g.transfers b := hitems ▸ by simp
    exact enter_sound hnested (hg.transfers_lt ht) hvisited.ready (hvisited.length_lt hlength)
  refine (loop_runs (P := fun _ loose => Continues R (b :: m :: exits) c loose) labels mergeBlock continueBlock hready
    hdrawn hbody (fun _ loose _ h => .absent h) fun body loose d' _ hvisited hlisted hc => ?_).imp ?_
  · exact (hnested (FlowGraph.blockOf?_lt continueBlock) hvisited.ready (hvisited.length_lt hlength)).imp
      fun parts ends h => .present hlisted hc h
  · rintro _ _ ⟨_, _, continuing, loose', ⟨spans, hbody, rfl, rfl⟩, hrest, rfl, rfl⟩
    exact .loop found merges labels mergeBlock continueBlock hbody hrest

theorem ifThen_sound (hg : g.Linked) (hnested : Sound g halts budget nested R) {merge terminator : Instruction}
    {mergeLabel : Id} {m : BlockId} (found : g.block? b = some block) (merges : block.merge? = some merge)
    (label : merge.selectionMerge? = some mergeLabel) (mergeBlock : g.blockOf? mergeLabel = some m)
    (ends : block.terminator? = some terminator) (hop : terminator.op = .branchConditional)
    (hready : Ready g halts d₀) (hdrawn : Drawn d₀ d [Piece.block b (depth + 1)])
    (hlength : d.unvisited.length < budget) :
    RunsOne (ifThen g nested b terminator (m :: exits) depth) d₀ d depth (Constructs g R exits b) halts := by
  obtain ⟨whenTrue, whenFalse, sides, labels, resolved⟩ := hg.conditionalTargets found ends hop
  refine (ifThen_runs (S := fun side span => Enters R (m :: exits) side (g.edgeBetween? b side).toList span.1 span.2)
    labels resolved hready hdrawn fun done side rest spans d' hitems _ hvisited => ?_).imp ?_
  · have hside : side ∈ sides := hitems ▸ by simp
    obtain ⟨_, -, hside⟩ := exists_of_mem_right (forall₂_of_mapM_some resolved) hside
    exact enter_sound hnested (FlowGraph.blockOf?_lt hside) hvisited.ready (hvisited.length_lt hlength)
  · rintro _ _ ⟨spans, harms, rfl, rfl⟩
    exact .ifThen found merges label mergeBlock ends labels resolved harms

/-- Drawn cases follow each other as they do when they are ordered. -/
theorem follows_of_direct {as : List ArmPieces} (h : SwitchArm.Direct (as.map ArmPieces.arm)) :
    Follows (as.map ArmPieces.sketch) := by
  intro i s next hs hfalls
  rw [List.getElem?_map] at hs
  obtain ⟨a, ha, rfl⟩ := Option.map_eq_some_iff.mp hs
  obtain ⟨arm, harm, htarget⟩ := h i a.arm next (by simp [ha]) hfalls
  rw [List.getElem?_map] at harm
  obtain ⟨a', ha', rfl⟩ := Option.map_eq_some_iff.mp harm
  exact ⟨a'.sketch, by simp [ha'], htarget⟩

theorem switch_sound (hg : g.Linked) (hR : SpanFactsOf g R) (hreject : ∀ r d', halts (.rejected r) d')
    (hnested : Sound g halts budget nested R) {merge terminator : Instruction} {mergeLabel : Id} {m : BlockId}
    (found : g.block? b = some block) (merges : block.merge? = some merge)
    (label : merge.selectionMerge? = some mergeLabel) (mergeBlock : g.blockOf? mergeLabel = some m)
    (ends : block.terminator? = some terminator) (hop : terminator.op = .switch)
    (hready : Ready g halts d₀) (hdrawn : Drawn d₀ d [Piece.block b (depth + 1)])
    (hlength : d.unvisited.length < budget) :
    RunsOne (switch g nested b terminator (m :: exits) depth) d₀ d depth (Constructs g R exits b) halts := by
  obtain ⟨defaultLabel, cases, default, caseBlocks, labels, defaultBlock, resolved⟩ := hg.switchCases found ends hop
  refine (switch_runs (R := R) hg labels defaultBlock resolved rfl hready hdrawn
    (fun done t rest arms d' hitems _ hvisited => ?_) (fun t parts loose h => (hR h).nonempty)
    (fun _ _ _ _ _ => hreject) fun _ _ _ _ => hreject).imp ?_
  · have ht : t ∈ (switchTargets caseBlocks default).filter (· ∉ m :: exits) := hitems ▸ by simp
    exact hnested (switchTargets_lt defaultBlock resolved (List.mem_filter.mp ht).1) hvisited.ready
      (hvisited.length_lt hlength)
  · rintro _ _ ⟨as, as', parsed, hperm, horder, rfl, rfl⟩
    have hwired := wired_of_parsed ((nodup_switchTargets caseBlocks default).filter _) parsed
    have hfollows := follows_of_direct (SwitchArm.order_ok hwired horder).2
    have hconstructs : Constructs g R exits b _ _ := .switch found merges label mergeBlock ends labels defaultBlock
      resolved rfl (List.forall₂_map_right_iff.mpr parsed) (hperm.map ArmPieces.sketch) hfollows
    rw [List.map_map] at hconstructs
    exact hconstructs

theorem construct_sound (hg : g.Linked) (hR : SpanFactsOf g R) (hreject : ∀ r d', halts (.rejected r) d')
    (hnested : Sound g halts budget nested R) (hb : b < g.size) (hready : Ready g halts d)
    (hlength : d.unvisited.length < budget + 1) :
    RunsOne (construct g nested b exits depth) d d depth (Constructs g R exits b) halts := by
  obtain ⟨block, found⟩ := FlowGraph.block?_eq_some_of_lt hb
  refine Ends.bind ((visit_ends hg hb fun _ r => hreject r d).imp fun _ d' ⟨hmem, hdrawn⟩ => ?_)
  have hvisited : Visited g halts d [b] d' := (hdrawn depth).visitedSince hready (by simp [Piece.block])
  have hlength' := hvisited.length_lt_of_mem (List.mem_singleton_self b) hlength
  refine Ends.bind (Ends.item found ?_)
  cases merges : block.merge? with
  | none => exact plain_ends hg found merges hdrawn
  | some merge =>
    by_cases hop : merge.op = .loopMerge
    · simp only [if_pos hop]
      exact loop_sound hg hnested found merges hop hready (hdrawn (depth + 1)) hlength'
    · simp only [if_neg hop]
      obtain ⟨mergeLabel, m, label, mergeBlock⟩ := hg.selectionMerge found merges hop
      obtain ⟨i, ends⟩ := hg.terminator? found
      unfold selection
      simp only [label]
      refine Ends.bind (Ends.blockOf mergeBlock (Ends.bind (Ends.terminatorOf found ends ?_)))
      split
      · exact ifThen_sound hg hnested found merges label mergeBlock ends ‹_› hready (hdrawn (depth + 1)) hlength'
      · exact switch_sound hg hR hreject hnested found merges label mergeBlock ends ‹_› hready (hdrawn (depth + 1))
          hlength'
      · exact Ends.reject hg hb (by simp) (hreject _ _)

/-- Targets of loose ends are blocks of the graph. -/
theorem ConstructFacts.onward_lt (hg : g.Linked) {sketch : Sketch} {loose : BlockExits}
    (h : ConstructFacts g exits b sketch loose) : ∀ v ∈ onward exits loose, v < g.size := by
  intro v hv
  obtain ⟨e, he⟩ := h.neat.full.exists_records (mem_onward.mp hv).1
  obtain ⟨u, -, htransfer⟩ := h.sourced v e he
  exact hg.transfers_lt htransfer

/-- Spans, by induction on the budget. -/
theorem span_sound (hg : g.Linked) (hreject : ∀ r d', halts (.rejected r) d') (budget : Nat) :
    Sound g halts budget (span g budget) (Spans g budget) := by
  induction budget with
  | zero => exact fun _ _ _ _ _ _ h => absurd h (Nat.not_lt_zero _)
  | succ budget ih =>
    intro start exits depth d hstart hready hlength
    have hfacts := Spans.facts hg budget
    have hlt : ∀ {s loose}, Constructs g (Spans g budget) exits start s loose → ∀ v ∈ onward exits loose, v < g.size :=
      fun h => ConstructFacts.onward_lt hg (h.facts hg hfacts)
    refine span_runs hg hstart hready (construct_sound hg hfacts hreject ih hstart hready hlength) ?_ ?_ ?_
    · exact fun s loose h honward => ⟨s, loose, h, Or.inl ⟨honward, rfl, rfl⟩⟩
    · intro s loose next d' h honward hvisited
      have hshorter := hvisited.length_lt_of_mem (h.facts hg hfacts).start_mem hlength
      refine (ih (hlt h next (by simp [honward])) hvisited.ready hshorter).imp fun rest ends hspan => ?_
      exact ⟨s, loose, h, Or.inr ⟨next, rest, ends, honward, hspan, rfl, rfl⟩⟩
    · intro s loose first second more h honward
      exact ⟨hlt h first (by simp [honward]), hlt h second (by simp [honward]), hreject⟩

/-- The root holds the span from the entry, and nothing is left to do. -/
def Rooted (g : FlowGraph) (sketch : Sketch) : Prop :=
  ∃ parts loose, Spans g (g.size + 1) [] g.entry parts loose ∧ loose.isEmpty = true ∧ sketch = .node .root loose parts

theorem root_sound (hg : g.Linked) (hreject : ∀ r d', halts (.rejected r) d') (hready : Ready g halts d)
    (hlength : d.unvisited.length < g.size + 1) :
    Ends (root g) d (fun id d' => ∃ sketch, Drawn d d' [⟨.node id, 0, sketch⟩] ∧ Rooted g sketch) halts := by
  refine (root_runs hready (span_sound hg hreject (g.size + 1) hg.size_pos hready hlength) fun parts loose hspan => ?_).imp
    fun id d' ⟨parts, loose, hspan, hempty, hdrawn⟩ => ⟨_, hdrawn, parts, loose, hspan, hempty, rfl⟩
  have hfacts := Spans.facts hg _ hspan
  refine ⟨hfacts.nonempty, ?_⟩
  cases htargets : loose.targets with
  | nil => simp [Exits.isEmpty, htargets]
  | cons group rest =>
    obtain ⟨e, he⟩ := hfacts.neat.full.exists_records (t := group.1) (by simp [Exits.targetList, htargets])
    exact absurd (hfacts.targets _ e he) List.not_mem_nil

end

end Structuring
end FlowTree
