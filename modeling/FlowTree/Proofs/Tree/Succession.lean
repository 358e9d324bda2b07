import FlowTree.Proofs.Tree.Nesting

/-!
Children in sequence. Where a node is a sequence, control can run from each of its children on into the next one:
an edge leads from a block in the one to the first block of the other. The body of a loop is a sequence for each
block of it that the header branches to, one behind the other; where one of these ends and the next begins, the edge
that leads into the next child is one of the header's.
-/

namespace FlowTree

open Sketch Structuring

namespace Sketch

/-- An edge leads from the one sketch to the start of the other, unless that is one of the given blocks. -/
def Joined (g : FlowGraph) (heads : List BlockId) (p q : Sketch) : Prop :=
  (∃ u ∈ p.blocks, q.first ∈ g.successors u) ∨ q.first ∈ heads

/-- The parts of every sequence in the sketch are joined. The body of a loop may begin anew at the given blocks, and
does begin at one of them. -/
inductive Successive (g : FlowGraph) : List BlockId → Sketch → Prop
  | block (heads : List BlockId) (b : BlockId) : Successive g heads (.block b)
  | sequence {heads : List BlockId} {kind : Kind} {exits : BlockExits} {parts : List Sketch}
    (notBody : kind ≠ .loopBody) (chain : parts.IsChain (Joined g [])) (inside : ∀ s ∈ parts, Successive g [] s) :
    Successive g heads (.node kind exits parts)
  | body {heads : List BlockId} {kind : Kind} {exits : BlockExits} {parts : List Sketch} (isBody : kind = .loopBody)
    (first : firstOf parts ∈ heads) (chain : parts.IsChain (Joined g heads)) (inside : ∀ s ∈ parts, Successive g [] s) :
    Successive g heads (.node kind exits parts)
  | construct {heads : List BlockId} {kind : Kind} {exits : BlockExits} {b : BlockId} {rest : List Sketch}
    (notSequence : kind.isSequence = false) (inside : ∀ s ∈ rest, Successive g (g.successors b) s) :
    Successive g heads (.node kind exits (.block b :: rest))

/-- The sketches are joined, and so are the parts of all sequences in them. -/
structure InSequence (g : FlowGraph) (parts : List Sketch) : Prop where
  chain : parts.IsChain (Joined g [])
  inside : ∀ s ∈ parts, Successive g [] s

section
variable {g : FlowGraph} {heads : List BlockId} {kind : Kind} {exits : BlockExits} {parts : List Sketch} {s : Sketch}

/-- What is in a node with a header may begin at the blocks that the header branches to. -/
theorem Successive.part (h : Successive g heads (.node kind exits parts)) (hs : s ∈ parts) :
    Successive g [] s ∨ ∃ b rest, parts = .block b :: rest ∧ Successive g (g.successors b) s := by
  cases h with
  | sequence _ _ inside => exact Or.inl (inside s hs)
  | body _ _ _ inside => exact Or.inl (inside s hs)
  | @construct _ _ _ b rest _ inside =>
    rcases List.mem_cons.mp hs with rfl | hs
    · exact Or.inl (.block [] b)
    · exact Or.inr ⟨b, rest, rfl, inside s hs⟩

theorem Successive.joined {i : Nat} {p q : Sketch} (h : Successive g heads (.node kind exits parts))
    (hkind : kind.isSequence = true) (hp : parts[i]? = some p) (hq : parts[i + 1]? = some q) :
    (∃ u ∈ p.blocks, q.first ∈ g.successors u) ∨
      (kind = .loopBody ∧ firstOf parts ∈ heads ∧ q.first ∈ heads) := by
  obtain ⟨hi, rfl⟩ := List.getElem?_eq_some_iff.mp hp
  obtain ⟨hi', rfl⟩ := List.getElem?_eq_some_iff.mp hq
  cases h with
  | sequence _ chain _ =>
    rcases List.isChain_iff_getElem.mp chain i hi' with hedge | hhead
    · exact Or.inl hedge
    · cases hhead
  | body isBody first chain _ =>
    exact (List.isChain_iff_getElem.mp chain i hi').imp_right fun hhead => ⟨isBody, first, hhead⟩
  | construct notSequence _ =>
    rw [hkind] at notSequence
    cases notSequence

theorem InSequence.node (h : InSequence g parts) (hkind : kind ≠ .loopBody) : Successive g heads (.node kind exits parts) :=
  .sequence hkind h.chain h.inside

theorem InSequence.part (h : InSequence g parts) (hkind : kind ≠ .loopBody) :
    ∀ s ∈ part kind exits parts, Successive g heads s := by
  intro s hs
  unfold Sketch.part at hs
  split at hs
  · cases hs
  · rw [List.mem_singleton.mp hs]
    exact h.node hkind

end

end Sketch

section
variable {g : FlowGraph} {R : SpanRelation}

/-- Every span of the relation is a sequence whose parts are joined. -/
def SpanSuccessive (g : FlowGraph) (R : SpanRelation) : Prop :=
  ∀ ⦃exits start parts loose⦄, R exits start parts loose → InSequence g parts

theorem Enters.successive (hS : SpanSuccessive g R) {exits : List BlockId} {start : BlockId} {sources : List EdgeId}
    {parts : List Sketch} {loose : BlockExits} (h : Enters R exits start sources parts loose) : InSequence g parts := by
  cases h with
  | stop => exact ⟨.nil, by simp⟩
  | go _ hrun => exact hS hrun

theorem Continues.successive (hS : SpanSuccessive g R) {exits : List BlockId} {c : BlockId} {body loose : BlockExits}
    {parts : List Sketch} (h : Continues R exits c body parts loose) : InSequence g parts := by
  cases h with
  | absent => exact ⟨.nil, by simp⟩
  | present _ _ hrun => exact hS hrun

theorem Enters.firstOf_eq (hR : SpanFactsOf g R) {exits : List BlockId} {start : BlockId} {sources : List EdgeId}
    {parts : List Sketch} {loose : BlockExits} (h : Enters R exits start sources parts loose) (hne : parts ≠ []) :
    firstOf parts = start := by
  cases h with
  | stop => exact absurd rfl hne
  | go _ hrun => exact (hR hrun).first_eq

/-- Spans one behind the other are joined, since each of them begins at a block that it is entered at. -/
theorem chain_flatMap (hR : SpanFactsOf g R) (hS : SpanSuccessive g R) {exits heads : List BlockId}
    {transfers : List (BlockId × EdgeId)} {spans : List SpanSketch}
    (body : List.Forall₂ (fun transfer span => Enters R exits transfer.1 [transfer.2] span.1 span.2) transfers spans)
    (hheads : ∀ transfer ∈ transfers, transfer.1 ∈ heads) :
    (spans.flatMap (·.1)).IsChain (Joined g heads) ∧
      (spans.flatMap (·.1) ≠ [] → firstOf (spans.flatMap (·.1)) ∈ heads) := by
  induction body with
  | nil => exact ⟨.nil, fun hne => absurd rfl hne⟩
  | @cons transfer span transfers spans enters _ ih =>
    obtain ⟨hhead, hrest⟩ := List.forall_mem_cons.mp hheads
    obtain ⟨ihChain, ihFirst⟩ := ih hrest
    have hspan : span.1.IsChain (Joined g heads) :=
      (enters.successive hS).chain.imp fun _ _ hjoined => hjoined.imp_right fun hnone => absurd hnone List.not_mem_nil
    rw [List.flatMap_cons]
    refine ⟨List.isChain_append.mpr ⟨hspan, ihChain, ?_⟩, fun hne => ?_⟩
    · intro p _ q hq
      obtain ⟨rest, hrest⟩ := List.head?_eq_some_iff.mp hq
      rw [hrest, firstOf_cons] at ihFirst
      exact Or.inr (ihFirst (List.cons_ne_nil q rest))
    · cases hparts : span.1 with
      | nil =>
        rw [hparts] at hne
        exact ihFirst hne
      | cons p rest =>
        have hfirst := enters.firstOf_eq hR (by simp [hparts])
        rw [hparts, firstOf_cons] at hfirst
        rw [List.cons_append, firstOf_cons, hfirst]
        exact hhead

/-- What is in a construct is in sequence when its spans are. -/
theorem Constructs.successive (hR : SpanFactsOf g R) (hS : SpanSuccessive g R) {exits : List BlockId} {b : BlockId}
    {sketch : Sketch} {loose : BlockExits} (h : Constructs g R exits b sketch loose) : Successive g [] sketch := by
  cases h with
  | leaving => exact .block [] b
  | plain => exact .block [] b
  | @loop _ _ _ _ m c spans continuing _ _ _ _ _ _ body rest =>
    obtain ⟨chain, first⟩ := chain_flatMap hR hS body fun transfer htransfer =>
      FlowGraph.mem_successors_iff.mpr ⟨transfer.2, htransfer⟩
    refine .construct rfl fun s hs => ?_
    rcases List.mem_append.mp hs with hs | hs
    · unfold Sketch.part at hs
      split at hs
      · cases hs
      · rw [List.mem_singleton.mp hs]
        refine .body rfl (first (by simpa using ‹¬(spans.flatMap (·.1)).isEmpty = true›)) chain fun p hp => ?_
        obtain ⟨span, hspan, hp⟩ := List.mem_flatMap.mp hp
        obtain ⟨_, -, enters⟩ := exists_of_mem_right body hspan
        exact (enters.successive hS).inside p hp
    · exact (rest.successive hS).part (by simp) s hs
  | ifThen _ _ _ _ _ _ _ arms =>
    refine .construct rfl fun s hs => ?_
    obtain ⟨span, hspan, hs⟩ := List.mem_flatMap.mp hs
    obtain ⟨_, -, enters⟩ := exists_of_mem_right arms hspan
    exact (enters.successive hS).part (by simp) s hs
  | switch _ _ _ _ _ _ _ _ _ parsed same _ =>
    refine .construct rfl fun s hs => ?_
    obtain ⟨a, ha, rfl⟩ := List.mem_map.mp hs
    obtain ⟨_, -, arm⟩ := exists_armOf parsed same ha
    exact (hS arm.span).node (by simp)

end

/-- A span goes on at a block that the part before it has an edge to. -/
theorem Spans.successive {g : FlowGraph} (hg : g.Linked) (budget : Nat) : SpanSuccessive g (Spans g budget) := by
  refine Spans.induction (fun {budget _ _ child _} ih hchild _ => ?_)
    (fun {budget _ _ _ _ next _ _} ih hchild hnext hrest => ?_) budget
  · exact ⟨.singleton child, List.forall_mem_singleton.mpr (hchild.successive (Spans.facts hg budget) ih)⟩
  · have facts := hchild.facts hg (Spans.facts hg budget)
    have restFacts := Spans.facts hg budget hrest
    obtain ⟨chain, inside⟩ := ih hrest
    refine ⟨List.isChain_cons.mpr ⟨fun q hq => ?_, chain⟩, List.forall_mem_cons.mpr ⟨?_, inside⟩⟩
    · obtain ⟨e, he⟩ := facts.neat.full.exists_records (of_onward_eq hnext).1
      obtain ⟨u, hu, hedge⟩ := facts.sourced next e he
      obtain ⟨tail, rfl⟩ := List.head?_eq_some_iff.mp hq
      have hfirst : q.first = next := by simpa using restFacts.first_eq
      exact Or.inl ⟨u, hu, hfirst ▸ FlowGraph.mem_successors_iff.mpr ⟨e, hedge⟩⟩
    · exact hchild.successive (Spans.facts hg budget) ih

/-! ### Trees -/

namespace Tree

/-- Control can run from a block in the one child to the first block of the other. -/
def RunsInto (t : Tree) (c c' : Child) : Prop :=
  ∃ u v, t.Holds c u ∧ t.view.first? c' = some v ∧ v ∈ t.graph.successors u

/-- The node is in a loop, whose header branches both to its first block and to another one, which is the first block
of the child. -/
def BranchedTo (t : Tree) (id : NodeId) (c : Child) : Prop :=
  ∃ outer i m n header v, t.parent? id = some (outer, i) ∧ t.node? outer = some m ∧ m.kind = .loop ∧
    m.header? = some header ∧ t.node? id = some n ∧ t.view.first? c = some v ∧ v ≠ n.firstBlock ∧
    v ∈ t.graph.successors header ∧ n.firstBlock ∈ t.graph.successors header

section
variable {g : FlowGraph} {before : Placement} {t : Tree} {sketch : Sketch} {unvisited : List BlockId}

theorem Built.successive (hg : g.Linked) (h : Built g before t sketch unvisited) : Successive g [] sketch := by
  obtain ⟨parts, loose, hspan, -, rfl⟩ := h.rooted
  exact (Spans.successive hg _ hspan).node (by simp)

theorem Inside.successive (hg : g.Linked) (h : Built g before t sketch unvisited) {id : NodeId} (hid : t.Inside id) :
    ∃ s heads, Draws (t.draft unvisited) (.node id) (t.depthOf id) s ∧ Closed g s ∧ Successive g heads s := by
  obtain ⟨s, hdraws, closed, heads, successive⟩ := hid.draws h
    (p := fun s => Closed g s ∧ ∃ heads, Successive g heads s) ⟨h.closed hg, [], h.successive hg⟩ (by
      intro kind exits parts hparts s hs
      obtain ⟨closed, heads, successive⟩ := hparts
      refine ⟨closed.part hs, ?_⟩
      rcases successive.part hs with hs | ⟨b, -, -, hs⟩
      · exact ⟨[], hs⟩
      · exact ⟨g.successors b, hs⟩)
  exact ⟨s, heads, hdraws, closed, successive⟩

/-- Two children one behind the other, in a node that may begin anew at the given blocks. -/
theorem runsInto_of_successive (hgraph : t.graph = g) {heads : List BlockId} {id : NodeId} {depth : Nat} {s : Sketch}
    {n : Node} {i : Nat} {c c' : Child} (hdraws : Draws (t.draft unvisited) (.node id) depth s) (closed : Closed g s)
    (successive : Successive g heads s) (found : t.node? id = some n) (hkind : n.kind.isSequence = true)
    (hc : n.children[i]? = some c) (hc' : n.children[i + 1]? = some c') :
    t.RunsInto c c' ∨ (n.kind = .loopBody ∧
      ∃ v, t.view.first? c' = some v ∧ v ≠ n.firstBlock ∧ v ∈ heads ∧ n.firstBlock ∈ heads) := by
  obtain ⟨n', parts, found', rfl, -, hfirst, hparts⟩ := children_of_draws hdraws
  obtain rfl : n = n' := Option.some.inj (found.symm.trans found')
  obtain ⟨p, hp, hdrawsp⟩ := getElem?_of_forall₂ hparts.flip hc
  obtain ⟨q, hq, hdrawsq⟩ := getElem?_of_forall₂ hparts.flip hc'
  have hfirstq : t.view.first? c' = some q.first := first?_view hdrawsq
  rcases successive.joined hkind hp hq with ⟨u, hu, hedge⟩ | ⟨hbody, hhead, hheadq⟩
  · exact Or.inl ⟨u, q.first, (holds_iff hdrawsp).mpr hu, hfirstq, hgraph ▸ hedge⟩
  · refine Or.inr ⟨hbody, q.first, hfirstq, ?_, hheadq, hfirst ▸ hhead⟩
    intro hsame
    obtain ⟨here, shapedParts⟩ := closed.shaped.of_node
    obtain ⟨r, rest, rfl⟩ := List.exists_cons_of_ne_nil here.ne_nil
    rw [hfirst, firstOf_cons] at hsame
    have hnodup : (blocksOf (r :: rest)).Nodup := by simpa using closed.nodup
    have hmem : r.first ∈ r.blocks := (shapedParts r List.mem_cons_self).first_mem
    have hmemq : r.first ∈ q.blocks := hsame ▸ (shapedParts q (List.mem_of_getElem? hq)).first_mem
    have := index_unique hnodup List.getElem?_cons_zero hq hmem hmemq
    omega

theorem runsInto_of_inSequence (hgraph : t.graph = g) {id : NodeId} {depth : Nat} {s : Sketch} {n : Node} {i : Nat}
    {c c' : Child} (hdraws : Draws (t.draft unvisited) (.node id) depth s) (closed : Closed g s)
    (successive : Successive g [] s) (found : t.node? id = some n) (hkind : n.kind.isSequence = true)
    (hc : n.children[i]? = some c) (hc' : n.children[i + 1]? = some c') : t.RunsInto c c' := by
  rcases runsInto_of_successive hgraph hdraws closed successive found hkind hc hc' with hruns | ⟨-, v, -, -, hv, -⟩
  · exact hruns
  · cases hv

/-- The blocks at which the body of a loop begins anew are those that the header of the loop branches to. -/
theorem Inside.runs_on (hg : g.Linked) (h : Built g before t sketch unvisited) {id : NodeId} {n : Node} {i : Nat}
    {c c' : Child} (hid : t.Inside id) (found : t.node? id = some n) (hkind : n.kind.isSequence = true)
    (hc : n.children[i]? = some c) (hc' : n.children[i + 1]? = some c') :
    t.RunsInto c c' ∨ (n.kind = .loopBody ∧ t.BranchedTo id c') := by
  cases hid with
  | root =>
    exact Or.inl (runsInto_of_inSequence h.graph_eq h.draws (h.closed hg) (h.successive hg) found hkind hc hc')
  | @child outer _ m houter foundOuter child =>
    obtain ⟨k, hk⟩ := List.mem_iff_getElem?.mp child
    obtain ⟨_, heads, hdraws, closed, successive⟩ := houter.successive hg h
    obtain ⟨parts, rfl, hparts⟩ := parts_of_draws foundOuter hdraws
    obtain ⟨s, hs, hinner⟩ := exists_of_mem_left hparts child
    have closedInner := closed.part hs
    rcases successive.part hs with hinside | ⟨b, rest, rfl, hinside⟩
    · exact Or.inl (runsInto_of_inSequence h.graph_eq hinner closedInner hinside found hkind hc hc')
    · refine (runsInto_of_successive h.graph_eq hinner closedInner hinside found hkind hc hc').imp_right ?_
      intro ⟨hbody, v, hfirst, hne, hv, hn⟩
      obtain ⟨_, rfl, -⟩ := parts_of_draws found hinner
      obtain ⟨hloop, -, -, -⟩ := closed.shaped.of_node.1.eq_loop hs (by simp [isOfKind, hbody])
      obtain ⟨_, _, hheader, -, hchildren⟩ := List.forall₂_cons_right_iff.mp hparts
      cases hheader
      have hheader : m.header? = some b := by simp [Node.header?, hloop, hchildren, Child.block?]
      exact ⟨hbody, outer, k, m, n, b, v, parent?_of_draws hdraws foundOuter hk, foundOuter, hloop, hheader, found,
        hfirst, hne, h.graph_eq ▸ hv, h.graph_eq ▸ hn⟩

end

end Tree

/-- The children of a sequence are in sequence: an edge leads from a block in each child to the first block of the next
one. In the body of a loop the next child may be where the body begins anew; then the header of the loop has an edge to
its first block, as it has to the first block of the body. -/
theorem sequence_runs_on {f : Function} {g : FlowGraph} {before : Placement} {t : Tree} {id : NodeId} {n : Node} {i : Nat}
    {c c' : Child} (accepted : FlowGraph.build f = .ok g) (structured : (Tree.build g before).1 = .ok t)
    (found : t.node? id = some n) (sequence : n.kind ∈ [Kind.root, .ifPart, .loopBody, .continuing, .case])
    (child : n.children[i]? = some c) (next : n.children[i + 1]? = some c') :
    t.RunsInto c c' ∨ (n.kind = .loopBody ∧ t.BranchedTo id c') := by
  have hg := FlowGraph.build_linked accepted
  obtain ⟨sketch, unvisited, h⟩ := Tree.build_ok hg structured
  have hid : t.Inside id := h.inside (Array.getElem?_eq_some_iff.mp found).1
  refine hid.runs_on hg h found ?_ child next
  cases hkind : n.kind <;> simp_all [Kind.isSequence]

theorem twoEntriesSample_sequences : ∃ g t body root, FlowGraph.build twoEntriesSample = .ok g ∧
    (Tree.build g (.none g)).1 = .ok t ∧ t.node? 0 = some body ∧ body.kind = .loopBody ∧
      body.children = [.block 1, .block 2] ∧ ¬t.RunsInto (.block 1) (.block 2) ∧ t.node? 3 = some root ∧
      root.kind = .root ∧ root.children = [.node 2, .block 4] := by
  have hchecked : hasTree twoEntriesSample (fun _ t => ((t.node? 0).any fun n => n.kind = .loopBody ∧
      n.children = [.block 1, .block 2] ∧ t.graph.successors 1 = [3]) &&
        (t.node? 3).any fun n => n.kind = .root ∧ n.children = [.node 2, .block 4]) = true := by decide +kernel
  obtain ⟨g, t, hbuild, htree, htest⟩ := exists_of_hasTree hchecked
  obtain ⟨htestBody, htestRoot⟩ := Bool.and_eq_true_iff.mp htest
  obtain ⟨body, found, hn⟩ := (Option.any_eq_true _ _).mp htestBody
  obtain ⟨root, found', hm⟩ := (Option.any_eq_true _ _).mp htestRoot
  obtain ⟨hkind, hchildren, hedges⟩ := of_decide_eq_true hn
  obtain ⟨hkind', hchildren'⟩ := of_decide_eq_true hm
  refine ⟨g, t, body, root, hbuild, htree, found, hkind, hchildren, ?_, found', hkind', hchildren'⟩
  intro ⟨u, v, hu, hv, hedge⟩
  cases hu
  cases hv
  rw [hedges] at hedge
  cases List.mem_singleton.mp hedge

/-- In the sample the loop runs into the block behind it, and its header branches to the second block of its body. -/
theorem sequence_runs_on_twoEntries : ∃ g t body root, FlowGraph.build twoEntriesSample = .ok g ∧
    (Tree.build g (.none g)).1 = .ok t ∧ t.node? 0 = some body ∧ body.kind = .loopBody ∧
      body.children = [.block 1, .block 2] ∧ t.BranchedTo 0 (.block 2) ∧ t.node? 3 = some root ∧ root.kind = .root ∧
      root.children = [.node 2, .block 4] ∧ t.RunsInto (.node 2) (.block 4) := by
  obtain ⟨g, t, body, root, hbuild, htree, found, hkind, hchildren, hnot, found', hkind', hchildren'⟩ :=
    twoEntriesSample_sequences
  have hbody : t.RunsInto (.block 1) (.block 2) ∨ (body.kind = .loopBody ∧ t.BranchedTo 0 (.block 2)) :=
    sequence_runs_on (i := 0) hbuild htree found (by simp [hkind]) (by simp [hchildren]) (by simp [hchildren])
  have hroot : t.RunsInto (.node 2) (.block 4) ∨ (root.kind = .loopBody ∧ t.BranchedTo 3 (.block 4)) :=
    sequence_runs_on (i := 0) hbuild htree found' (by simp [hkind']) (by simp [hchildren']) (by simp [hchildren'])
  exact ⟨g, t, body, root, hbuild, htree, found, hkind, hchildren, (hbody.resolve_left hnot).2, found', hkind',
    hchildren', hroot.resolve_right (by simp [hkind'])⟩

/-- The first block of the body of the sample does not run into the second one. -/
theorem body_not_in_sequence : ∃ g t body, FlowGraph.build twoEntriesSample = .ok g ∧
    (Tree.build g (.none g)).1 = .ok t ∧ t.node? 0 = some body ∧ body.kind = .loopBody ∧
      body.children[0]? = some (.block 1) ∧ body.children[1]? = some (.block 2) ∧
      ¬t.RunsInto (.block 1) (.block 2) := by
  obtain ⟨g, t, body, -, hbuild, htree, found, hkind, hchildren, hnot, -⟩ := twoEntriesSample_sequences
  exact ⟨g, t, body, hbuild, htree, found, hkind, by simp [hchildren], by simp [hchildren], hnot⟩

end FlowTree
