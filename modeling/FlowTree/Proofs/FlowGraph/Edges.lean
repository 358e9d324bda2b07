import FlowTree.Proofs.FlowGraph.Grammar

/-!
The edges of a built graph. An edge is known by its number, which is its place among the edges, and it has one: there is
one edge for each successor of a block. The lists of edges at the blocks, the successors and the search for an edge
between two blocks all say the same about them, and labels and blocks correspond.
-/

namespace FlowTree
namespace FlowGraph

section
variable {f : Function} {g : FlowGraph}

theorem mem_transfers_of_edge (h : build f = .ok g) {e : EdgeId} {edge : Edge} (hedge : g.edges[e]? = some edge) :
    (edge.target, e) ∈ g.transfers edge.source := by
  obtain ⟨id, source, target⟩ := edge
  obtain rfl : id = e := build_edge_id h hedge
  exact (build_transfers h).mpr hedge

theorem build_edge_lt (h : build f = .ok g) {edge : Edge} (hedge : edge ∈ g.edges.toList) :
    edge.source < g.size ∧ edge.target < g.size := by
  obtain ⟨e, he⟩ := List.mem_iff_getElem?.mp hedge
  have htransfer := mem_transfers_of_edge h (e := e) (by simpa using he)
  refine ⟨?_, (build_linked h).transfers_lt htransfer⟩
  by_contra hout
  have hnone : g.outgoing[edge.source]? = none :=
    Array.getElem?_eq_none (by rw [(build_linked h).outgoing_size]; exact Nat.le_of_not_lt hout)
  simpa [outgoingEdges, hnone] using (mem_transfers.mp htransfer).1

/-- The tables of a built graph follow from its edges and the number of its blocks. -/
theorem build_tables (h : build f = .ok g) :
    g.function = f ∧ g.outgoing = (Array.range g.size).map (fun b => edgesWhere g.edges.toList (·.source = b)) ∧
      g.incoming = (Array.range g.size).map fun b => edgesWhere g.edges.toList (·.target = b) := by
  obtain ⟨blocks, links, -, -, rfl⟩ := build_eq_ok h
  rw [size_ofLinks, outgoing_ofLinks, incoming_ofLinks, edges_ofLinks]
  exact ⟨rfl, rfl, rfl⟩

/-- The edges of a built graph follow from their ends. -/
theorem build_edges (h : build f = .ok g) : g.edges.toList = numbered (g.edges.toList.map Edge.ends) := by
  obtain ⟨blocks, links, -, -, rfl⟩ := build_eq_ok h
  rw [edges_ofLinks, edgesOf, map_ends_numbered]

theorem edgesWhere_increasing (edges : List Edge) (p : Edge → Bool) : (edgesWhere edges p).Pairwise (· < ·) := by
  have hsublist : (edgesWhere edges p).Sublist (edges.zipIdx.map (·.2)) := List.filter_sublist.map _
  rw [List.zipIdx_map_snd] at hsublist
  exact List.Pairwise.sublist hsublist (List.pairwise_lt_range' 1 Nat.one_pos)

/-- A row of a table for the blocks lists the edges that satisfy the test for its block, if these are at blocks. -/
theorem row_of_table {edges : List Edge} {table : Array (List EdgeId)} {size : Nat} {p : BlockId → Edge → Bool}
    (htable : table = (Array.range size).map fun b => edgesWhere edges (p b))
    (hsize : ∀ b, ∀ edge ∈ edges, p b edge = true → b < size) (b : BlockId) :
    (table[b]?.getD []).Pairwise (· < ·) ∧
      ∀ e, e ∈ table[b]?.getD [] ↔ ∃ edge, edges[e]? = some edge ∧ p b edge = true := by
  by_cases hb : b < size
  · have hrow : table[b]?.getD [] = edgesWhere edges (p b) := by simp [htable, hb]
    rw [hrow]
    exact ⟨edgesWhere_increasing edges (p b), fun e => mem_edgesWhere⟩
  · have hrow : table[b]?.getD [] = [] := by simp [htable, hb]
    rw [hrow]
    refine ⟨.nil, fun e => ⟨fun he => by simp at he, ?_⟩⟩
    rintro ⟨edge, hedge, hp⟩
    exact absurd (hsize b edge (List.mem_of_getElem? hedge) hp) hb

theorem outgoingEdges_row (h : build f = .ok g) (b : BlockId) : (g.outgoingEdges b).Pairwise (· < ·) ∧
    ∀ e, e ∈ g.outgoingEdges b ↔ ∃ v, g.edges[e]? = some ⟨e, b, v⟩ := by
  obtain ⟨hincreasing, hmem⟩ := row_of_table (build_tables h).2.1
    (fun b edge hedge hp => of_decide_eq_true hp ▸ (build_edge_lt h hedge).1) b
  refine ⟨hincreasing, fun e => (hmem e).trans ?_⟩
  constructor
  · rintro ⟨⟨id, source, target⟩, hedge, hp⟩
    obtain rfl : source = b := of_decide_eq_true hp
    have hedge : g.edges[e]? = some ⟨id, source, target⟩ := by simpa using hedge
    obtain rfl : id = e := build_edge_id h hedge
    exact ⟨target, hedge⟩
  · rintro ⟨v, hedge⟩
    exact ⟨⟨e, b, v⟩, by simpa using hedge, decide_eq_true rfl⟩

theorem incomingEdges_row (h : build f = .ok g) (b : BlockId) : (g.incomingEdges b).Pairwise (· < ·) ∧
    ∀ e, e ∈ g.incomingEdges b ↔ ∃ u, g.edges[e]? = some ⟨e, u, b⟩ := by
  obtain ⟨hincreasing, hmem⟩ := row_of_table (build_tables h).2.2
    (fun b edge hedge hp => of_decide_eq_true hp ▸ (build_edge_lt h hedge).2) b
  refine ⟨hincreasing, fun e => (hmem e).trans ?_⟩
  constructor
  · rintro ⟨⟨id, source, target⟩, hedge, hp⟩
    obtain rfl : target = b := of_decide_eq_true hp
    have hedge : g.edges[e]? = some ⟨id, source, target⟩ := by simpa using hedge
    obtain rfl : id = e := build_edge_id h hedge
    exact ⟨source, hedge⟩
  · rintro ⟨u, hedge⟩
    exact ⟨⟨e, u, b⟩, by simpa using hedge, decide_eq_true rfl⟩

theorem edge_unique (h : build f = .ok g) {edge edge' : Edge} {e e' : EdgeId} (he : g.edges[e]? = some edge)
    (he' : g.edges[e']? = some edge') (hsource : edge'.source = edge.source) (htarget : edge'.target = edge.target) :
    e' = e := by
  have hfirst := mem_transfers_of_edge h he
  have hother := mem_transfers_of_edge h he'
  rw [hsource, htarget] at hother
  exact (build_linked h).transfers_unique hother hfirst

theorem edgeBetween?_iff (h : build f = .ok g) {a b : BlockId} {e : EdgeId} :
    g.edgeBetween? a b = some e ↔ g.edges[e]? = some ⟨e, a, b⟩ := by
  rw [(build_linked h).edgeBetween?_eq_some_iff, build_transfers h]

theorem isSome_edgeBetween? (h : build f = .ok g) (a b : BlockId) :
    (g.edgeBetween? a b).isSome ↔ b ∈ g.successors a := by
  rw [Option.isSome_iff_exists, mem_successors_iff]
  exact exists_congr fun e => (build_linked h).edgeBetween?_eq_some_iff

theorem mem_predecessors_iff (h : build f = .ok g) {u b : BlockId} : u ∈ g.predecessors b ↔ b ∈ g.successors u := by
  rw [mem_successors_iff, predecessors, List.mem_filterMap]
  simp only [(incomingEdges_row h b).2, build_transfers h]
  constructor
  · rintro ⟨e, ⟨u', hedge⟩, hsource⟩
    rw [hedge] at hsource
    cases hsource
    exact ⟨e, hedge⟩
  · rintro ⟨e, hedge⟩
    exact ⟨e, ⟨u, hedge⟩, by rw [hedge]; rfl⟩

theorem labels_nodup (h : build f = .ok g) : (g.blocks.toList.map (·.label)).Nodup := by
  obtain ⟨blocks, links, hcut, -, -⟩ := build_eq_ok h
  obtain ⟨groups, trailing, hparses, -⟩ := exists_parses hcut
  rw [blocks_of_parses h hparses, List.map_map]
  exact hparses.distinct

theorem mem_labels_iff (h : build f = .ok g) {l : Id} : l ∈ g.blocks.toList.map (·.label) ↔ f.Defines l := by
  obtain ⟨blocks, links, hcut, -, -⟩ := build_eq_ok h
  obtain ⟨groups, trailing, hparses, -⟩ := exists_parses hcut
  rw [blocks_of_parses h hparses, defines_iff hparses]

end

/-- The tables of a graph agree with each other and with the function. -/
structure Tabled (f : Function) (g : FlowGraph) : Prop where
  /-- Edges carry their numbers and lead from blocks to blocks, and no two have both ends the same. -/
  edges : ∀ (e : EdgeId) (edge : Edge), g.edges[e]? = some edge → edge.id = e ∧ edge.source < g.size ∧
    edge.target < g.size ∧ ∀ (e' : EdgeId) (edge' : Edge), g.edges[e']? = some edge' →
      edge'.source = edge.source → edge'.target = edge.target → e' = e
  outgoing : ∀ b, (g.outgoingEdges b).Pairwise (· < ·) ∧ ∀ e, e ∈ g.outgoingEdges b ↔ ∃ v, g.edges[e]? = some ⟨e, b, v⟩
  incoming : ∀ b, (g.incomingEdges b).Pairwise (· < ·) ∧ ∀ e, e ∈ g.incomingEdges b ↔ ∃ u, g.edges[e]? = some ⟨e, u, b⟩
  /-- The successors are the blocks that the terminator names, each where it is named first. -/
  successors : ∀ b block, g.block? b = some block → ∃ i labels targets, block.terminator? = some i ∧
    i.branchTargets? = some labels ∧ labels.mapM g.blockOf? = some targets ∧ g.successors b = targets.eraseDups
  predecessors : ∀ u b, u ∈ g.predecessors b ↔ b ∈ g.successors u
  between : ∀ a b, ((g.edgeBetween? a b).isSome ↔ b ∈ g.successors a) ∧
    ∀ e, g.edgeBetween? a b = some e ↔ g.edges[e]? = some ⟨e, a, b⟩
  /-- A label that the function defines leads to a block, and no other label does. -/
  labels : ∀ l, (∃ b, g.blockOf? l = some b) ↔ f.Defines l
  /-- Every block has one label that leads to it. -/
  labelled : ∀ b < g.size, ∃ l, g.blockOf? l = some b ∧ ∀ l', g.blockOf? l' = some b → l' = l

section
variable {f : Function} {g : FlowGraph}

theorem exists_blockOf?_iff (h : build f = .ok g) (l : Id) : (∃ b, g.blockOf? l = some b) ↔ f.Defines l := by
  simp only [blockOf?_eq_some_iff (labels_nodup h), ← mem_labels_iff h, List.mem_map]
  constructor
  · rintro ⟨b, block, found, hlabel⟩
    exact ⟨block, List.mem_of_getElem? (by simpa [block?] using found), hlabel⟩
  · rintro ⟨block, hmem, hlabel⟩
    obtain ⟨b, found⟩ := List.mem_iff_getElem?.mp hmem
    exact ⟨b, block, by simpa [block?] using found, hlabel⟩

theorem exists_label (h : build f = .ok g) {b : BlockId} (hb : b < g.size) :
    ∃ l, g.blockOf? l = some b ∧ ∀ l', g.blockOf? l' = some b → l' = l := by
  obtain ⟨block, found⟩ := block?_eq_some_of_lt hb
  simp only [blockOf?_eq_some_iff (labels_nodup h)]
  refine ⟨block.label, ⟨block, found, rfl⟩, ?_⟩
  rintro l' ⟨block', found', rfl⟩
  rw [found] at found'
  cases found'
  rfl

end

end FlowGraph

/-- The tables of a built graph agree. An edge carries its number and is filed under it with the block that it leaves and
with the one that it comes to, numbers ascending, and no two edges have the same ends; the successors of a block are those
that its terminator names, without repeats; the edge between two blocks is found if and only if the one is a successor of
the other, and it is the only one; and the labels that the function defines correspond to the blocks. -/
theorem edge_tables_agree {f : Function} {g : FlowGraph} (accepted : FlowGraph.build f = .ok g) : g.Tabled f where
  edges e edge hedge := by
    obtain ⟨hsource, htarget⟩ := FlowGraph.build_edge_lt accepted (List.mem_of_getElem? (by simpa using hedge))
    exact ⟨FlowGraph.build_edge_id accepted hedge, hsource, htarget,
      fun _ _ hedge' => FlowGraph.edge_unique accepted hedge hedge'⟩
  outgoing := FlowGraph.outgoingEdges_row accepted
  incoming := FlowGraph.incomingEdges_row accepted
  successors := (FlowGraph.build_linked accepted).terminator
  predecessors _ _ := FlowGraph.mem_predecessors_iff accepted
  between a b := ⟨FlowGraph.isSome_edgeBetween? accepted a b, fun _ => FlowGraph.edgeBetween?_iff accepted⟩
  labels := FlowGraph.exists_blockOf?_iff accepted
  labelled _ hb := FlowGraph.exists_label accepted hb

/-- A switch that names its own block twice and another block as the default and in a case. -/
def repeatedTargetsSample : Function where
  name := "repeated_targets"
  instructions := [
    { op := .label, result := 7 },
    { op := .switch, operands := [.ofId 9, .ofId 3, .ofLiteral 1, .ofId 7, .ofLiteral 2, .ofId 3, .ofLiteral 3, .ofId 7] },
    { op := .label, result := 3 }, { op := .branchConditional, operands := [.ofId 9, .ofId 3, .ofId 3] }]

/-- The sample has one edge for each block and each of its successors. -/
theorem edge_tables_agree_repeated : ∃ g, FlowGraph.build repeatedTargetsSample = .ok g ∧ g.Tabled repeatedTargetsSample ∧
    g.edges = #[⟨0, 0, 1⟩, ⟨1, 0, 0⟩, ⟨2, 1, 1⟩] ∧ g.outgoingEdges 0 = [0, 1] ∧ g.incomingEdges 1 = [0, 2] := by
  have hchecked : hasGraph repeatedTargetsSample (fun g => g.edges = #[⟨0, 0, 1⟩, ⟨1, 0, 0⟩, ⟨2, 1, 1⟩] ∧
      g.outgoingEdges 0 = [0, 1] ∧ g.incomingEdges 1 = [0, 2]) = true := by decide +kernel
  obtain ⟨g, hbuild, htest⟩ := exists_of_hasGraph hchecked
  exact ⟨g, hbuild, edge_tables_agree hbuild, of_decide_eq_true htest⟩

end FlowTree
