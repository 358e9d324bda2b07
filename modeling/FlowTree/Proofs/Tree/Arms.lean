import FlowTree.Proofs.Tree.Nesting

/-!
Arms of selections. An If does not say which of its arms is for which target; that is found out from their first
blocks. Every node of a tree was made by structuring one construct or one span (`Made`), and so the arms of an If are
for its targets in their order, each starting at its target; a target has no arm when it is an exit of what is around.
The transfers from the header are explained, so a target that is in the If has an arm.
-/

namespace FlowTree

open Sketch Structuring

namespace Sketch

/-- Every node of the sketch is a sequence, or the construct that a block opened. -/
inductive Made (g : FlowGraph) : Sketch → Prop
  | block (b : BlockId) : Made g (.block b)
  | sequence {kind : Kind} {exits : BlockExits} {parts : List Sketch} (sequence : kind.isSequence = true)
    (inside : ∀ s ∈ parts, Made g s) : Made g (.node kind exits parts)
  | construct {budget : Nat} {around : List BlockId} {b : BlockId} {kind : Kind} {exits loose : BlockExits}
    {parts : List Sketch} (opened : Constructs g (Spans g budget) around b (.node kind exits parts) loose)
    (inside : ∀ s ∈ parts, Made g s) : Made g (.node kind exits parts)

section
variable {g : FlowGraph} {kind : Kind} {exits : BlockExits} {parts : List Sketch}

theorem Made.inside (h : Made g (.node kind exits parts)) : ∀ s ∈ parts, Made g s := by
  cases h with
  | sequence _ inside => exact inside
  | construct _ inside => exact inside

theorem made_part (hkind : kind.isSequence = true) (h : ∀ s ∈ parts, Made g s) : ∀ s ∈ part kind exits parts, Made g s := by
  intro s hs
  unfold part at hs
  split at hs
  · cases hs
  · rw [List.mem_singleton.mp hs]
    exact .sequence hkind h

end

end Sketch

section
variable {g : FlowGraph} {R : SpanRelation} {exits : List BlockId} {loose : BlockExits} {parts : List Sketch}

/-- Every span of the relation is made of blocks and constructs. -/
def SpanMade (g : FlowGraph) (R : SpanRelation) : Prop :=
  ∀ ⦃exits start parts loose⦄, R exits start parts loose → ∀ s ∈ parts, Made g s

theorem Enters.made (hM : SpanMade g R) {start : BlockId} {sources : List EdgeId}
    (h : Enters R exits start sources parts loose) : ∀ s ∈ parts, Made g s := by
  cases h with
  | stop => simp
  | go _ hrun => exact hM hrun

theorem Continues.made (hM : SpanMade g R) {c : BlockId} {body : BlockExits} (h : Continues R exits c body parts loose) :
    ∀ s ∈ parts, Made g s := by
  cases h with
  | absent => simp
  | present _ _ hrun => exact hM hrun

theorem Constructs.made {budget : Nat} (hM : SpanMade g (Spans g budget)) {b : BlockId} {sketch : Sketch}
    (h : Constructs g (Spans g budget) exits b sketch loose) : Made g sketch := by
  have opened := h
  cases h with
  | leaving => exact .block b
  | plain => exact .block b
  | loop _ _ _ _ _ body rest =>
    refine .construct opened (List.forall_mem_cons.mpr ⟨.block b, List.forall_mem_append.mpr ⟨?_, ?_⟩⟩)
    · refine made_part rfl fun s hs => ?_
      obtain ⟨span, hspan, hs⟩ := List.mem_flatMap.mp hs
      obtain ⟨_, -, enters⟩ := exists_of_mem_right body hspan
      exact enters.made hM s hs
    · exact made_part rfl (rest.made hM)
  | ifThen _ _ _ _ _ _ _ arms =>
    refine .construct opened (List.forall_mem_cons.mpr ⟨.block b, fun s hs => ?_⟩)
    obtain ⟨span, hspan, hs⟩ := List.mem_flatMap.mp hs
    obtain ⟨_, -, enters⟩ := exists_of_mem_right arms hspan
    exact made_part rfl (enters.made hM) s hs
  | switch _ _ _ _ _ _ _ _ _ parsed same _ =>
    refine .construct opened (List.forall_mem_cons.mpr ⟨.block b, fun s hs => ?_⟩)
    obtain ⟨a, ha, rfl⟩ := List.mem_map.mp hs
    obtain ⟨_, -, arm⟩ := exists_armOf parsed same ha
    exact .sequence rfl (hM arm.span)

end

theorem Spans.made (g : FlowGraph) (budget : Nat) : SpanMade g (Spans g budget) := by
  refine Spans.induction (fun ih hchild _ => ?_) (fun ih hchild _ hrest => ?_) budget
  · exact List.forall_mem_singleton.mpr (hchild.made ih)
  · exact List.forall_mem_cons.mpr ⟨hchild.made ih, ih hrest⟩

theorem Tree.Built.made {g : FlowGraph} {before : Placement} {t : Tree} {sketch : Sketch} {unvisited : List BlockId}
    (h : Tree.Built g before t sketch unvisited) : Made g sketch := by
  obtain ⟨parts, loose, hspan, -, rfl⟩ := h.rooted
  exact .sequence rfl (Spans.made g _ hspan)

/-! ### Targets of a selection -/

/-- The block branches to one of two blocks. -/
def FlowGraph.Branches (g : FlowGraph) (b whenTrue whenFalse : BlockId) : Prop :=
  ∃ block i trueLabel falseLabel, g.block? b = some block ∧ block.terminator? = some i ∧
    i.conditionalTargets? = some (trueLabel, falseLabel) ∧ g.blockOf? trueLabel = some whenTrue ∧
    g.blockOf? falseLabel = some whenFalse

section
variable {g : FlowGraph} {b whenTrue whenFalse : BlockId} {exits : BlockExits} {arms : List Sketch}

theorem FlowGraph.label_of_blockOf? {label : Id} (h : g.blockOf? label = some b) :
    ∃ block, g.block? b = some block ∧ block.label = label := by
  obtain ⟨hlt, hlabel, -⟩ := Array.findIdx?_eq_some_iff_getElem.mp h
  exact ⟨g.blocks[b], Array.getElem?_eq_getElem hlt, of_decide_eq_true hlabel⟩

theorem FlowGraph.blockOf?_inj {label label' : Id} (h : g.blockOf? label = some b) (h' : g.blockOf? label' = some b) :
    label = label' := by
  obtain ⟨block, found, rfl⟩ := label_of_blockOf? h
  obtain ⟨block', found', rfl⟩ := label_of_blockOf? h'
  cases found.symm.trans found'
  rfl

/-- The distinct targets of a branch, in their order. -/
def sidesOf (whenTrue whenFalse : BlockId) : List BlockId :=
  if whenFalse = whenTrue then [whenTrue] else [whenTrue, whenFalse]

theorem mem_sidesOf {v : BlockId} : v ∈ sidesOf whenTrue whenFalse ↔ v = whenTrue ∨ v = whenFalse := by
  unfold sidesOf
  split <;> simp_all

/-- The arms start at targets, in the order of these. -/
theorem sublist_firsts {R : SpanRelation} {around : List BlockId} (hR : SpanFactsOf g R) {sides : List BlockId}
    {spans : List SpanSketch} (h : List.Forall₂ (fun side span =>
      Enters R around side (g.edgeBetween? b side).toList span.1 span.2) sides spans) :
    ((spans.flatMap fun span => part .ifPart span.2 span.1).map first).Sublist sides := by
  induction h with
  | nil => exact .slnil
  | @cons side span sides spans enters _ ih =>
    obtain ⟨parts, loose⟩ := span
    rw [List.flatMap_cons, List.map_append]
    cases enters with
    | stop => simpa [part] using ih.cons side
    | go _ hrun =>
      have facts := hR hrun
      simpa [part, facts.nonempty, facts.first_eq] using ih

/-- The header of an If branches, and the arms start at its targets. -/
theorem Sketch.Made.branches (hg : g.Linked) (h : Made g (.node .ifThen exits (.block b :: arms))) :
    ∃ whenTrue whenFalse, g.Branches b whenTrue whenFalse ∧
      (arms.map first).Sublist (sidesOf whenTrue whenFalse) ∧
      ∀ v ∈ sidesOf whenTrue whenFalse, v ∈ g.successors b := by
  cases h with
  | sequence sequence _ => cases sequence
  | @construct budget around _ _ _ _ _ opened _ =>
    cases opened with
    | @ifThen block _ i _ trueLabel falseLabel _ sides spans found _ _ _ ends labels resolved arms =>
      have hsublist := sublist_firsts (Spans.facts hg budget) arms
      have hsuccessors := hg.mem_successors_conditional found ends labels resolved
      have hlabels := forall₂_of_mapM_some resolved
      by_cases hsame : falseLabel = trueLabel
      · rw [if_pos hsame] at hlabels
        obtain ⟨v, _, htrue, hnil, rfl⟩ := List.forall₂_cons_left_iff.mp hlabels
        cases hnil
        have htargets : sidesOf v v = [v] := by simp [sidesOf]
        refine ⟨v, v, ⟨block, i, _, _, found, ends, labels, htrue, hsame ▸ htrue⟩, htargets ▸ hsublist, ?_⟩
        exact fun v' hv' => (hsuccessors v').mpr (htargets ▸ hv')
      · rw [if_neg hsame] at hlabels
        obtain ⟨v, _, htrue, hrest, rfl⟩ := List.forall₂_cons_left_iff.mp hlabels
        obtain ⟨w, _, hfalse, hnil, rfl⟩ := List.forall₂_cons_left_iff.mp hrest
        cases hnil
        have hne : w ≠ v := by
          rintro rfl
          exact hsame (FlowGraph.blockOf?_inj hfalse htrue)
        have htargets : sidesOf v w = [v, w] := by simp [sidesOf, hne]
        refine ⟨v, w, ⟨block, i, _, _, found, ends, labels, htrue, hfalse⟩, htargets ▸ hsublist, ?_⟩
        exact fun v' hv' => (hsuccessors v').mpr (htargets ▸ hv')

/-- A block that the header branches to and that is in the If is the first one of an arm. -/
theorem Sketch.Closed.mem_firsts (h : Closed g (.node .ifThen exits (.block b :: arms))) {v : BlockId}
    (hv : v ∈ g.successors b)
    (hmem : v ∈ b :: blocksOf arms) : v ∈ arms.map first := by
  have hmem : v ∈ blocksOf (.block b :: arms) := by simpa using hmem
  obtain ⟨q, hq, hvq⟩ := mem_blocksOf.mp hmem
  obtain ⟨j, hj⟩ := List.mem_iff_getElem?.mp hq
  have hcrosses : Crosses (.block b :: arms) 0 j b v := ⟨⟨.block b, rfl, by simp, fun _ => rfl⟩, q, hj, hvq⟩
  cases h.explained.of_node.1 0 j b v hcrosses hv with
  | next sequence => cases sequence
  | arm _ _ harm child hfirst =>
    obtain ⟨j, rfl⟩ := Nat.exists_eq_add_of_le' harm
    rw [List.getElem?_cons_succ] at child
    exact List.mem_map.mpr ⟨_, List.mem_of_getElem? child, Option.some.inj hfirst⟩
  | case selection => cases selection
  | back loop => cases loop
  | body loop => cases loop
  | continuing loop => cases loop

end

namespace Tree

/-- The node is an arm of the given one and starts at the block. -/
def IsArm (t : Tree) (n : Node) (arm : NodeId) (v : BlockId) : Prop :=
  .node arm ∈ n.children ∧ ∃ m, t.node? arm = some m ∧ m.kind = .ifPart ∧ m.firstBlock = v

section
variable {t : Tree} {unvisited : List BlockId} {n : Node} {id arm : NodeId} {header whenTrue whenFalse v : BlockId}

theorem IsArm.start_unique {v' : BlockId} (h : t.IsArm n arm v) (h' : t.IsArm n arm v') : v = v' := by
  obtain ⟨-, m, found, -, rfl⟩ := h
  obtain ⟨-, m', found', -, rfl⟩ := h'
  cases found.symm.trans found'
  rfl

/-- The arms that are drawn are nodes with the first blocks of their sketches. -/
theorem exists_arms {depth : Nat} {children : List Child} {arms : List Sketch}
    (h : List.Forall₂ (fun c s => Draws (t.draft unvisited) c depth s) children arms)
    (hkinds : ∀ s ∈ arms, s.isOfKind .ifPart = true) : ∃ ids : List NodeId, children = ids.map .node ∧
      List.Forall₂ (fun id v => ∃ m, t.node? id = some m ∧ m.kind = .ifPart ∧ m.firstBlock = v) ids (arms.map first) := by
  induction h with
  | nil => exact ⟨[], rfl, .nil⟩
  | @cons c s children arms hdraws _ ih =>
    obtain ⟨hkind, hrest⟩ := List.forall_mem_cons.mp hkinds
    obtain ⟨ids, rfl, hids⟩ := ih hrest
    cases s with
    | block b => cases hkind
    | node kind exits parts =>
      cases hdraws with
      | @node id m _ _ found _ first_eq =>
        exact ⟨id :: ids, rfl, .cons ⟨m, found, of_decide_eq_true hkind, by rw [first_eq, first_node]⟩ hids⟩

/-- Nodes that start at targets, in the order of these: one for the true target, and one for the other target. -/
theorem exists_split {ids : List NodeId} {firsts : List BlockId} {r : NodeId → BlockId → Prop}
    (h : List.Forall₂ r ids firsts) (hfirsts : firsts.Sublist (sidesOf whenTrue whenFalse)) :
    ∃ then? otherwise? : Option NodeId, ids = then?.toList ++ otherwise?.toList ∧ (∀ arm ∈ then?, r arm whenTrue) ∧
      ∀ arm ∈ otherwise?, whenFalse ≠ whenTrue ∧ r arm whenFalse := by
  have one : ∀ {ids firsts v}, List.Forall₂ r ids firsts → firsts.Sublist [v] →
      ∃ arm? : Option NodeId, ids = arm?.toList ∧ ∀ arm ∈ arm?, r arm v := by
    intro ids firsts v h hfirsts
    rcases List.sublist_singleton.mp hfirsts with rfl | rfl
    · rw [List.forall₂_nil_right_iff] at h
      exact ⟨none, h, by simp⟩
    · obtain ⟨arm, _, harm, hnil, rfl⟩ := List.forall₂_cons_right_iff.mp h
      cases hnil
      exact ⟨some arm, rfl, by simpa using harm⟩
  unfold sidesOf at hfirsts
  split at hfirsts
  · obtain ⟨then?, rfl, hthen⟩ := one h hfirsts
    exact ⟨then?, none, by simp, hthen, by simp⟩
  · rename_i hne
    rcases List.sublist_cons_iff.mp hfirsts with hfirsts | ⟨rest, rfl, hrest⟩
    · obtain ⟨otherwise?, rfl, hother⟩ := one h hfirsts
      exact ⟨none, otherwise?, rfl, by simp, fun arm harm => ⟨hne, hother arm harm⟩⟩
    · obtain ⟨arm, _, harm, hids, rfl⟩ := List.forall₂_cons_right_iff.mp h
      obtain ⟨otherwise?, rfl, hother⟩ := one hids hrest
      exact ⟨some arm, otherwise?, rfl, by simpa using harm, fun arm harm => ⟨hne, hother arm harm⟩⟩

/-- The arms are told apart by the blocks that they start at. -/
theorem ifArms_eq {then? otherwise? : Option NodeId} (found : t.node? id = some n) (isIf : n.kind = .ifThen)
    (branches : t.graph.Branches header whenTrue whenFalse)
    (children : n.children = .block header :: (then?.toList ++ otherwise?.toList).map .node)
    (hthen : ∀ arm ∈ then?, ∃ m, t.node? arm = some m ∧ m.kind = .ifPart ∧ m.firstBlock = whenTrue)
    (hother : ∀ arm ∈ otherwise?, whenFalse ≠ whenTrue ∧
      ∃ m, t.node? arm = some m ∧ m.kind = .ifPart ∧ m.firstBlock = whenFalse) :
    t.ifArms id = (then?, otherwise?) := by
  obtain ⟨block, i, trueLabel, falseLabel, foundBlock, ends, labels, htrue, hfalse⟩ := branches
  have hheader : n.header? = some header := by simp [Node.header?, isIf, children, Child.block?]
  have hids : n.children.filterMap Child.node? = then?.toList ++ otherwise?.toList := by
    rw [children, List.filterMap_cons_none rfl, List.filterMap_map]
    simp [Function.comp_def, Child.node?]
  have htest : ∀ (p : Node → Bool), t.partsWhere n p =
      then?.toList.filter (fun arm => (t.node? arm).any p) ++ otherwise?.toList.filter fun arm => (t.node? arm).any p :=
    fun p => by rw [partsWhere, hids, List.filter_append]
  simp only [ifArms, found, isIf, if_true, hheader, Option.bind_some, foundBlock, ends, labels, htrue, hfalse, htest]
  cases then? with
  | none =>
    cases otherwise? with
    | none => rfl
    | some arm =>
      obtain ⟨hne, m, hm, -, rfl⟩ := hother arm rfl
      simp [hm, hne]
  | some arm =>
    obtain ⟨m, hm, -, rfl⟩ := hthen arm rfl
    cases otherwise? with
    | none => simp [hm]
    | some arm' =>
      obtain ⟨hne, m', hm', -, rfl⟩ := hother arm' rfl
      simp [hm, hm', hne]

end

section
variable {g : FlowGraph} {before : Placement} {t : Tree} {sketch : Sketch} {unvisited : List BlockId}

theorem Inside.made (hg : g.Linked) (h : Built g before t sketch unvisited) {id : NodeId} (hid : t.Inside id) :
    ∃ s, Draws (t.draft unvisited) (.node id) (t.depthOf id) s ∧ Closed g s ∧ Made g s :=
  hid.draws h ⟨h.closed hg, h.made⟩ fun _ _ _ hs _ hmem => ⟨hs.1.part hmem, hs.2.inside _ hmem⟩

/-- The children of an If are its header and its arms, and these are for the targets that are in the If. -/
theorem Inside.arms (hg : g.Linked) (h : Built g before t sketch unvisited) {id : NodeId} {n : Node} (hid : t.Inside id)
    (found : t.node? id = some n) (isIf : n.kind = .ifThen) :
    ∃ header whenTrue whenFalse, ∃ then? otherwise? : Option NodeId, t.graph.Branches header whenTrue whenFalse ∧
      n.children = .block header :: (then?.toList ++ otherwise?.toList).map .node ∧
      (∀ arm ∈ then?, t.IsArm n arm whenTrue) ∧
      (∀ arm ∈ otherwise?, whenFalse ≠ whenTrue ∧ t.IsArm n arm whenFalse) ∧
      ∀ v, v = whenTrue ∨ v = whenFalse → (t.Holds (.node id) v ↔ ∃ arm, t.IsArm n arm v) := by
  obtain ⟨s, hdraws, closed, made⟩ := hid.made hg h
  obtain ⟨parts, rfl, hparts⟩ := parts_of_draws found hdraws
  have hholds : ∀ v, t.Holds (.node id) v ↔ v ∈ blocksOf parts := fun v => by rw [holds_iff hdraws, blocks_node]
  rw [isIf] at closed made
  cases closed.shaped.of_node.1 with
  | sequence sequence => cases sequence
  | @ifThen header arms kinds _ =>
    obtain ⟨_, _, hheader, hchildren, heq⟩ := List.forall₂_cons_right_iff.mp hparts
    cases hheader
    obtain ⟨ids, rfl, hids⟩ := exists_arms hchildren kinds
    obtain ⟨whenTrue, whenFalse, branches, hfirsts, hedges⟩ := made.branches hg
    have isArm : ∀ {v arm}, arm ∈ ids → (∃ m, t.node? arm = some m ∧ m.kind = .ifPart ∧ m.firstBlock = v) →
        t.IsArm n arm v := fun harm hm => ⟨heq ▸ List.mem_cons_of_mem _ (List.mem_map_of_mem harm), hm⟩
    obtain ⟨then?, otherwise?, rfl, hthen, hother⟩ := exists_split hids hfirsts
    refine ⟨header, whenTrue, whenFalse, then?, otherwise?, h.graph_eq ▸ branches, heq, fun arm harm => ?_,
      fun arm harm => ?_, fun v hv => ⟨fun hin => ?_, ?_⟩⟩
    · exact isArm (List.mem_append_left _ (Option.mem_toList.mpr harm)) (hthen arm harm)
    · exact ⟨(hother arm harm).1, isArm (List.mem_append_right _ (Option.mem_toList.mpr harm)) (hother arm harm).2⟩
    · have hmem : v ∈ header :: blocksOf arms := by simpa using (hholds v).mp hin
      obtain ⟨arm, harm, hm⟩ := exists_of_mem_right hids (closed.mem_firsts (hedges v (mem_sidesOf.mpr hv)) hmem)
      exact ⟨arm, isArm harm hm⟩
    · rintro ⟨arm, child, m, foundArm, -, rfl⟩
      obtain ⟨p, hp, hinner⟩ := exists_of_mem_left hparts child
      obtain ⟨m', foundArm', hfirst⟩ := hinner.found
      obtain rfl := Option.some.inj (foundArm.symm.trans foundArm')
      exact (hholds _).mpr (mem_blocksOf.mpr ⟨p, hp, hfirst ▸ (closed.shaped.of_node.2 p hp).first_mem⟩)

theorem nodup_arms {n : Node} {header whenTrue whenFalse : BlockId} {then? otherwise? : Option NodeId}
    (children : n.children = .block header :: (then?.toList ++ otherwise?.toList).map .node)
    (hthen : ∀ arm ∈ then?, t.IsArm n arm whenTrue)
    (hother : ∀ arm ∈ otherwise?, whenFalse ≠ whenTrue ∧ t.IsArm n arm whenFalse) : n.children.Nodup := by
  have hids : (then?.toList ++ otherwise?.toList).Nodup := by
    refine List.nodup_append'.mpr ⟨by cases then? <;> simp, by cases otherwise? <;> simp, fun arm harm harm' => ?_⟩
    obtain ⟨hne, hfalse⟩ := hother arm (Option.mem_toList.mp harm')
    exact hne (hfalse.start_unique (hthen arm (Option.mem_toList.mp harm)))
  rw [children, List.nodup_cons]
  exact ⟨by simp, hids.map fun _ _ heq => by injection heq⟩

end

end Tree

/-- The arms of an If are those for the targets of its header. The true arm is the one that starts at the true target,
and there is none exactly when that is not in the If; the false arm is the one that starts at the false target, and there
is none exactly when that is the true target or is not in the If. The two together, one behind the other, are the nodes
among the children of the If, which are all different. -/
theorem arms_by_target {f : Function} {g : FlowGraph} {before : Placement} {t : Tree} {id : NodeId} {n : Node}
    (accepted : FlowGraph.build f = .ok g) (structured : (Tree.build g before).1 = .ok t) (found : t.node? id = some n)
    (isIf : n.kind = .ifThen) :
    ∃ header whenTrue whenFalse, n.header? = some header ∧ t.graph.Branches header whenTrue whenFalse ∧
      (∀ arm, (t.ifArms id).1 = some arm ↔ t.IsArm n arm whenTrue) ∧
      ((t.ifArms id).1 = none ↔ ¬t.Holds (.node id) whenTrue) ∧
      (∀ arm, (t.ifArms id).2 = some arm ↔ whenFalse ≠ whenTrue ∧ t.IsArm n arm whenFalse) ∧
      ((t.ifArms id).2 = none ↔ whenFalse = whenTrue ∨ ¬t.Holds (.node id) whenFalse) ∧
      n.children = .block header :: ((t.ifArms id).1.toList ++ (t.ifArms id).2.toList).map .node ∧ n.children.Nodup := by
  have hg := FlowGraph.build_linked accepted
  obtain ⟨sketch, unvisited, h⟩ := Tree.build_ok hg structured
  have hid : t.Inside id := h.inside (Array.getElem?_eq_some_iff.mp found).1
  obtain ⟨header, whenTrue, whenFalse, then?, otherwise?, branches, children, hthen, hother, hholds⟩ :=
    hid.arms hg h found isIf
  have hheader : n.header? = some header := by simp [Node.header?, isIf, children, Child.block?]
  have harms : t.ifArms id = (then?, otherwise?) := Tree.ifArms_eq found isIf branches children
    (fun arm harm => (hthen arm harm).2) fun arm harm => ⟨(hother arm harm).1, (hother arm harm).2.2⟩
  have hlisted : ∀ {arm v}, t.IsArm n arm v → then? = some arm ∨ otherwise? = some arm := fun harm => by
    simpa [children] using harm.1
  have htrue : ∀ arm, then? = some arm ↔ t.IsArm n arm whenTrue := fun arm => by
    refine ⟨hthen arm, fun harm => (hlisted harm).resolve_right fun hsome => ?_⟩
    exact (hother arm hsome).1 ((hother arm hsome).2.start_unique harm)
  have hfalse : ∀ arm, otherwise? = some arm ↔ whenFalse ≠ whenTrue ∧ t.IsArm n arm whenFalse := fun arm => by
    refine ⟨hother arm, fun harm => (hlisted harm.2).resolve_left fun hsome => ?_⟩
    exact harm.1 (harm.2.start_unique (hthen arm hsome))
  rw [harms]
  refine ⟨header, whenTrue, whenFalse, hheader, branches, htrue, ?_, hfalse, ?_, children,
    Tree.nodup_arms children hthen hother⟩
  · rw [hholds whenTrue (Or.inl rfl), Option.eq_none_iff_forall_ne_some, not_exists]
    exact forall_congr' fun arm => not_congr (htrue arm)
  · rw [hholds whenFalse (Or.inr rfl), Option.eq_none_iff_forall_ne_some, not_exists]
    simp only [ne_eq, hfalse, not_and]
    by_cases hsame : whenFalse = whenTrue <;> simp [hsame]

/-- A selection whose true arm starts with another selection; the false target of the one and the true target of the
other are where they merge. -/
def nestedArmsSample : Function where
  name := "nested_arms"
  instructions := [
    { op := .label, result := 1 }, { op := .selectionMerge, operands := [.ofId 5] },
    { op := .branchConditional, operands := [.ofId 9, .ofId 2, .ofId 5] },
    { op := .label, result := 2 }, { op := .selectionMerge, operands := [.ofId 4] },
    { op := .branchConditional, operands := [.ofId 9, .ofId 4, .ofId 3] },
    { op := .label, result := 3 }, { op := .branch, operands := [.ofId 4] },
    { op := .label, result := 4 }, { op := .branch, operands := [.ofId 5] },
    { op := .label, result := 5 }, { op := .return }]

theorem arms_by_target_nested : ∃ g t n, FlowGraph.build nestedArmsSample = .ok g ∧ (Tree.build g (.none g)).1 = .ok t ∧
    t.node? 3 = some n ∧ n.kind = .ifThen ∧ n.children = [.block 0, .node 2] ∧ t.ifArms 3 = (some 2, none) ∧
    t.IsArm n 2 1 ∧ ¬t.Holds (.node 3) 4 := by
  have hchecked : hasTree nestedArmsSample (fun g t => ((t.node? 3).any fun n => n.kind = .ifThen ∧
      n.children = [.block 0, .node 2] ∧ n.header? = some 0) && decide (t.ifArms 3 = (some 2, none) ∧
      ((t.graph.block? 0).bind (·.terminator?)).bind (·.conditionalTargets?) = some (2, 5) ∧
      t.graph.blockOf? 2 = some 1 ∧ t.graph.blockOf? 5 = some 4)) = true := by decide +kernel
  obtain ⟨g, t, hbuild, htree, htest⟩ := exists_of_hasTree hchecked
  obtain ⟨hnode, htest⟩ := Bool.and_eq_true_iff.mp htest
  obtain ⟨n, found, hn⟩ := (Option.any_eq_true _ _).mp hnode
  obtain ⟨isIf, children, hheader⟩ := of_decide_eq_true hn
  obtain ⟨harms, htargets, htrue, hfalse⟩ := of_decide_eq_true htest
  obtain ⟨header, v, w, hheader', ⟨block, i, l, l', foundBlock, ends, labels, hv, hw⟩, hthen, -, -, hmissing, -⟩ :=
    arms_by_target hbuild htree found isIf
  obtain rfl := Option.some.inj (hheader.symm.trans hheader')
  rw [foundBlock, Option.bind_some, ends, Option.bind_some, labels] at htargets
  cases htargets
  obtain rfl := Option.some.inj (htrue.symm.trans hv)
  obtain rfl := Option.some.inj (hfalse.symm.trans hw)
  rw [harms] at hthen hmissing
  exact ⟨g, t, n, hbuild, htree, found, isIf, children, harms, (hthen 2).mp rfl, (hmissing.mp rfl).resolve_left (by decide)⟩

end FlowTree
