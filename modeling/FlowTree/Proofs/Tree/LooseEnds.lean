import FlowTree.Proofs.Tree.Accounts
import FlowTree.Proofs.Tree.Transfers

/-!
The exits of the nodes of a built tree. Every node in the table is in the tree, and its exits are the edges of the graph
that leave it; those of a switch case are the edges that leave the switch.
-/

namespace FlowTree

open Sketch Structuring

namespace Tree

/-- The exits record the edges that start in the one child and end outside the other, each once and under its target. -/
structure RecordsLeaving (t : Tree) (exits : BlockExits) (inner outer : Child) : Prop where
  targets_nodup : exits.targetList.Nodup
  edges_nodup : ∀ v, (exits.edges v).Nodup
  edges_ne_nil : ∀ v ∈ exits.targetList, exits.edges v ≠ []
  mem_edges : ∀ v e, e ∈ exits.edges v ↔ ∃ u, t.graph.edges[e]? = some ⟨e, u, v⟩ ∧ t.Holds inner u ∧ ¬t.Holds outer v

section
variable {f : Function} {g : FlowGraph} {before : Placement} {t : Tree} {sketch : Sketch} {unvisited : List BlockId}

/-- The nodes in the table are those of the tree. -/
theorem Built.inside (h : Built g before t sketch unvisited) {id : NodeId} (hid : id < t.nodes.size) : t.Inside id := by
  induction hk : t.nodes.size - id using Nat.strongRecOn generalizing id with
  | _ k ih =>
    rcases h.drawn.held id (Nat.zero_le id) hid with ⟨p, hp, hc⟩ | ⟨id', n, hlt, found, child⟩
    · rw [List.mem_singleton.mp hp] at hc
      cases hc
      exact .root
    · -- Climbing from node to node ends at the root since the numbers grow.
      have hid' : id' < t.nodes.size := (Array.getElem?_eq_some_iff.mp found).1
      have hless : t.nodes.size - id' < k := hk ▸ Nat.sub_lt_sub_left hid hlt
      exact .child (ih _ hless hid' rfl) found child

theorem Built.accounted (hg : g.Linked) (h : Built g before t sketch unvisited) : Accounted g sketch := by
  have hnodup := h.nodup
  obtain ⟨parts, loose, hspan, -, rfl⟩ := h.rooted
  have facts := Spans.facts hg _ hspan
  have hparts := Spans.accounted hg _ hspan (by simpa using hnodup) fun e he => List.not_mem_nil (facts.targets _ e he)
  exact hparts.node fun _ => facts.accounts List.not_mem_nil

/-- Exits that account for the blocks of children record what leaves the children. -/
theorem recordsLeaving_of_accounts (accepted : FlowGraph.build f = .ok g) (hgraph : t.graph = g) {exits : BlockExits}
    {inner outer : Child} {xs ys : List BlockId} (h : Accounts g exits xs ys) (hinner : ∀ b, t.Holds inner b ↔ b ∈ xs)
    (houter : ∀ b, t.Holds outer b ↔ b ∈ ys) : t.RecordsLeaving exits inner outer where
  targets_nodup := h.neat.targets_nodup
  edges_nodup := h.neat.nodup_edges
  edges_ne_nil v hv := by
    obtain ⟨e, he⟩ := h.neat.full.exists_records hv
    exact List.ne_nil_of_mem (h.neat.mem_edges.mpr he)
  mem_edges v e := by
    rw [h.neat.mem_edges, h.records_iff, hgraph]
    constructor
    · rintro ⟨⟨u, hu, he⟩, hv⟩
      exact ⟨u, (FlowGraph.build_transfers accepted).mp he, (hinner u).mpr hu, fun hv' => hv ((houter v).mp hv')⟩
    · rintro ⟨u, he, hu, hv⟩
      exact ⟨⟨u, (hinner u).mp hu, (FlowGraph.build_transfers accepted).mpr he⟩, fun hv' => hv ((houter v).mpr hv')⟩

theorem Inside.accounted (hg : g.Linked) (h : Built g before t sketch unvisited) {id : NodeId} (hid : t.Inside id) :
    ∃ s, Draws (t.draft unvisited) (.node id) (t.depthOf id) s ∧ Accounted g s :=
  hid.draws h (h.accounted hg) fun _ _ _ hs s hmem => by
    cases hs with
    | node _ _ inside => exact inside s hmem

theorem Inside.records_itself (accepted : FlowGraph.build f = .ok g) (h : Built g before t sketch unvisited) {id : NodeId}
    {n : Node} (hid : t.Inside id) (found : t.node? id = some n) (hkind : n.kind.accountsForItself = true) :
    t.RecordsLeaving n.exits (.node id) (.node id) := by
  obtain ⟨s, hdraws, hs⟩ := hid.accounted (FlowGraph.build_linked accepted) h
  obtain ⟨parts, rfl, -⟩ := parts_of_draws found hdraws
  cases hs with
  | node here _ _ =>
    have hblocks : ∀ b, t.Holds (.node id) b ↔ b ∈ blocksOf parts := fun b => by rw [holds_iff hdraws, blocks_node]
    exact recordsLeaving_of_accounts accepted h.graph_eq (here hkind) hblocks hblocks

theorem Built.root_eq (h : Built g before t sketch unvisited) {n : Node} (found : t.node? t.root = some n) :
    n.kind = .root ∧ n.exits.targetList = [] := by
  obtain ⟨parts, loose, -, hempty, rfl⟩ := h.rooted
  obtain ⟨_, heq, -⟩ := parts_of_draws found h.draws
  injection heq with hkind hexits
  subst hexits
  exact ⟨hkind.symm, by simpa [Exits.isEmpty, Exits.targetList] using hempty⟩

theorem Inside.records_switch (accepted : FlowGraph.build f = .ok g) (h : Built g before t sketch unvisited) {id : NodeId}
    {n : Node} (hid : t.Inside id) (found : t.node? id = some n) (hkind : n.kind = .case) :
    ∃ outer i s, t.parent? id = some (outer, i) ∧ t.node? outer = some s ∧ s.kind = .switch ∧
      s.children[i]? = some (.node id) ∧ t.RecordsLeaving n.exits (.node id) (.node outer) := by
  cases hid with
  | root =>
    have hroot := (h.root_eq found).1
    rw [hkind] at hroot
    cases hroot
  | @child outer _ s houter foundOuter child =>
    obtain ⟨i, hi⟩ := List.mem_iff_getElem?.mp child
    obtain ⟨_, hdraws, hs⟩ := houter.accounted (FlowGraph.build_linked accepted) h
    obtain ⟨parts, rfl, hparts⟩ := parts_of_draws foundOuter hdraws
    obtain ⟨part, hpart, hinner⟩ := exists_of_mem_left hparts child
    obtain ⟨caseParts, rfl, -⟩ := parts_of_draws found hinner
    cases hs with
    | node _ cases _ =>
      obtain ⟨hswitch, haccounts⟩ := cases n.exits caseParts (hkind ▸ hpart)
      refine ⟨outer, i, s, parent?_of_draws hdraws foundOuter hi, foundOuter, hswitch, hi, ?_⟩
      refine recordsLeaving_of_accounts accepted h.graph_eq haccounts (fun b => ?_) fun b => ?_
      · rw [holds_iff hinner, blocks_node]
      · rw [holds_iff hdraws, blocks_node]

end

end Tree

/-- The exits of the nodes of a tree are exact: they are the edges that leave the node, each once and under its target,
and for a switch case the edges that leave the switch. Nothing leaves the root. -/
theorem exits_exact {f : Function} {g : FlowGraph} {before : Placement} {t : Tree} {id : NodeId} {n : Node}
    (accepted : FlowGraph.build f = .ok g) (structured : (Tree.build g before).1 = .ok t) (found : t.node? id = some n) :
    (n.kind ∈ [Kind.root, .ifThen, .ifPart, .loop, .switch] → t.RecordsLeaving n.exits (.node id) (.node id)) ∧
      (id = t.root → n.kind = .root ∧ n.exits.targetList = []) ∧
      (n.kind = .case → ∃ outer i s, t.parent? id = some (outer, i) ∧ t.node? outer = some s ∧ s.kind = .switch ∧
        s.children[i]? = some (.node id) ∧ t.RecordsLeaving n.exits (.node id) (.node outer)) := by
  obtain ⟨sketch, unvisited, h⟩ := Tree.build_ok (FlowGraph.build_linked accepted) structured
  have hid : t.Inside id := h.inside (Array.getElem?_eq_some_iff.mp found).1
  refine ⟨fun hkind => hid.records_itself accepted h found ?_, ?_, hid.records_switch accepted h found⟩
  · simp only [List.mem_cons, List.not_mem_nil, or_false] at hkind
    rcases hkind with hk | hk | hk | hk | hk <;> rw [hk] <;> rfl
  · rintro rfl
    exact h.root_eq found

/-- A loop around a switch whose first case falls into the second one or leaves the loop. -/
def fallthroughSample : Function where
  name := "fallthrough"
  instructions := [
    { op := .label, result := 1 }, { op := .branch, operands := [.ofId 2] },
    { op := .label, result := 2 }, { op := .loopMerge, operands := [.ofId 8, .ofId 7] },
    { op := .branch, operands := [.ofId 3] },
    { op := .label, result := 3 }, { op := .selectionMerge, operands := [.ofId 6] },
    { op := .switch, operands := [.ofId 9, .ofId 6, .ofLiteral 1, .ofId 4, .ofLiteral 2, .ofId 5] },
    { op := .label, result := 4 }, { op := .branchConditional, operands := [.ofId 9, .ofId 5, .ofId 8] },
    { op := .label, result := 5 }, { op := .branch, operands := [.ofId 6] },
    { op := .label, result := 6 }, { op := .branch, operands := [.ofId 7] },
    { op := .label, result := 7 }, { op := .branch, operands := [.ofId 2] },
    { op := .label, result := 8 }, { op := .return }]

/-- Two edges leave the first case of the sample, and one of them is among its exits. -/
theorem fallthroughSample_built : ∃ g t n, FlowGraph.build fallthroughSample = .ok g ∧
    (Tree.build g (.none g)).1 = .ok t ∧ t.node? 0 = some n ∧ n.kind = .case ∧
      g.edges[5]? = some ⟨5, 3, 4⟩ ∧ g.edges[6]? = some ⟨6, 3, 7⟩ ∧ n.exits.targets = [(7, [6])] := by
  have hchecked : hasTree fallthroughSample (fun g t => (t.node? 0).any fun n =>
      n.kind = .case ∧ g.edges[5]? = some ⟨5, 3, 4⟩ ∧ g.edges[6]? = some ⟨6, 3, 7⟩ ∧
        n.exits.targets = [(7, [6])]) = true := by
    decide +kernel
  obtain ⟨g, t, hbuild, htree, htest⟩ := exists_of_hasTree hchecked
  obtain ⟨n, found, hn⟩ := (Option.any_eq_true _ _).mp htest
  exact ⟨g, t, n, hbuild, htree, found, of_decide_eq_true hn⟩

theorem exits_exact_fallthrough : ∃ g t n outer, FlowGraph.build fallthroughSample = .ok g ∧
    (Tree.build g (.none g)).1 = .ok t ∧ t.node? 0 = some n ∧ n.kind = .case ∧
      g.edges[5]? = some ⟨5, 3, 4⟩ ∧ g.edges[6]? = some ⟨6, 3, 7⟩ ∧ n.exits.targets = [(7, [6])] ∧
      t.RecordsLeaving n.exits (.node 0) (.node outer) := by
  obtain ⟨g, t, n, hbuild, htree, found, hkind, hfalls, hleaves, hexits⟩ := fallthroughSample_built
  obtain ⟨outer, _, _, -, -, -, -, hrecords⟩ := (exits_exact hbuild htree found).2.2 hkind
  exact ⟨g, t, n, outer, hbuild, htree, found, hkind, hfalls, hleaves, hexits, hrecords⟩

end FlowTree
