import FlowTree.Proofs.FlowGraph.BlockNames
import FlowTree.Proofs.FlowGraph.Edges
import FlowTree.Proofs.FlowGraph.Reach
import FlowTree.Proofs.Tree.Walk
import FlowTree.Snapshot.Format
import Mathlib

/-!
What a snapshot says about a function. A snapshot lists the blocks in order and knows them by name only. Where the names
of the blocks are distinct, the snapshot has the whole graph in it, and the tree up to the numbers of its nodes; where
two blocks share a name, different graphs can have one snapshot (`blocks_share_name`).
-/

namespace FlowTree

namespace FlowGraph

variable {f f' : Function} {g g' : FlowGraph} {a b : BlockId}

theorem size_eq (g : FlowGraph) : g.size = (g.blocks.toList.map (·.name)).length := by
  simp [size]

theorem blockName_eq (g : FlowGraph) (b : BlockId) : g.blockName b = ((g.blocks.toList.map (·.name))[b]?).getD "" := by
  simp [blockName, block?]

theorem blockName_congr (h : g'.blocks.toList.map (·.name) = g.blocks.toList.map (·.name)) :
    g'.blockName = g.blockName := by
  funext b
  rw [blockName_eq, blockName_eq, h]

/-- Where the names of the blocks are distinct, a block is known by its name. -/
theorem eq_of_blockName_eq (hnames : (g.blocks.toList.map (·.name)).Nodup) (ha : a < g.size) (hb : b < g.size)
    (h : g.blockName a = g.blockName b) : a = b := by
  rw [size_eq] at ha hb
  rw [blockName_eq, blockName_eq, List.getElem?_eq_getElem ha, List.getElem?_eq_getElem hb] at h
  exact hnames.getElem_inj_iff.mp h

/-- Graphs with equally many blocks and the same edges differ in their blocks at most. -/
theorem build_eq_of_edges (h : build f = .ok g) (h' : build f' = .ok g') (hsize : g'.size = g.size)
    (hedges : g'.edges = g.edges) : g' = { g with function := f', blocks := g'.blocks } := by
  -- Successors are read from the tables and the edges, and the dominators from the successors.
  obtain ⟨-, hout, hin⟩ := build_tables h
  obtain ⟨hf, hout', hin'⟩ := build_tables h'
  rw [hsize, hedges, ← hout] at hout'
  rw [hsize, hedges, ← hin] at hin'
  have htarget : g'.target? = g.target? := by
    funext e
    rw [target?, target?, hedges]
  have hsuccessors : g'.successors = g.successors := by
    funext b
    rw [successors, successors, outgoingEdges, outgoingEdges, hout', htarget]
  have hdominators : g'.dominators = g.dominators := by
    rw [build_dominators h, build_dominators h', digraph, digraph, hsize, hsuccessors]
    rfl
  cases g'
  simp only at hf hout' hin' hedges hdominators
  simp only [hf, hout', hin', hedges, hdominators]

theorem names_blockSnapshots (g : FlowGraph) :
    g.blockSnapshots.map (·.name) = g.blocks.toList.map (·.name) := by
  rw [blockSnapshots, List.map_map]
  calc g.blocks.toList.zipIdx.map (fun x => x.1.name)
    _ = (g.blocks.toList.zipIdx.map Prod.fst).map (·.name) := by rw [List.map_map]; rfl
    _ = g.blocks.toList.map (·.name) := by rw [List.zipIdx_map_fst]

theorem edgeSnapshots_eq (g : FlowGraph) : g.edgeSnapshots =
    (g.edges.toList.map Edge.ends).map fun ends => ⟨g.blockName ends.1, g.blockName ends.2⟩ := by
  rw [List.map_map]
  rfl

/-- Where the names of the blocks are distinct, the snapshots of blocks and edges have the whole graph in them. -/
theorem build_eq_of_snapshots (h : build f = .ok g) (h' : build f' = .ok g')
    (hnames : (g.blocks.toList.map (·.name)).Nodup) (hblocks : g'.blockSnapshots = g.blockSnapshots)
    (hedges : g'.edgeSnapshots = g.edgeSnapshots) :
    g'.blocks.toList.map (·.name) = g.blocks.toList.map (·.name) ∧
      g' = { g with function := f', blocks := g'.blocks } := by
  have hlist : g'.blocks.toList.map (·.name) = g.blocks.toList.map (·.name) := by
    rw [← names_blockSnapshots, hblocks, names_blockSnapshots]
  have hname := blockName_congr hlist
  have hsize : g'.size = g.size := by rw [size_eq, size_eq, hlist]
  refine ⟨hlist, build_eq_of_edges h h' hsize (Array.toList_inj.mp ?_)⟩
  rw [edgeSnapshots_eq, edgeSnapshots_eq, hname] at hedges
  rw [build_edges h, build_edges h']
  refine congrArg numbered (eq_of_map_eq_map hedges fun ends hends ends' hends' heq => ?_)
  obtain ⟨e, he, rfl⟩ := List.mem_map.mp hends
  obtain ⟨e', he', rfl⟩ := List.mem_map.mp hends'
  obtain ⟨hsource, htarget⟩ := EdgeSnapshot.mk.inj heq
  obtain ⟨hs, ht⟩ := build_edge_lt h' he
  obtain ⟨hs', ht'⟩ := build_edge_lt h he'
  rw [hsize] at hs ht
  exact Prod.ext (eq_of_blockName_eq hnames hs hs' hsource) (eq_of_blockName_eq hnames ht ht' htarget)

end FlowGraph

/-! ### Trees -/

theorem Kind.name_ne_blockKind (k : Kind) : k.name ≠ blockKind := by
  cases k with
  | other code =>
    intro h
    have hnone : Kind.table.lookup (.other code) = none := rfl
    have hfirst := congrArg (fun s : String => s.toList.head?) h
    simp [Kind.name, hnone, blockKind] at hfirst
  | _ => decide +kernel

namespace Region

theorem blocks_node (id : NodeId) (kind : Kind) (depth : Nat) (first : BlockId) (children : List Region) :
    (Region.node id kind depth first children).blocks = blocksAll children := rfl

theorem blocksAll_cons (r : Region) (rs : List Region) : blocksAll (r :: rs) = r.blocks ++ blocksAll rs := rfl

variable {name : BlockId → String} (label : BlockId → String)

mutual

/-- Regions with one snapshot have the same blocks in the same places, if their blocks are known by name. -/
theorem snapshot_relabel {depth : Nat} : (r r' : Region) → (∀ b ∈ r.blocks, ∀ b' ∈ r'.blocks, name b = name b' → b = b') →
    r.snapshot name depth = r'.snapshot name depth → r.snapshot label depth = r'.snapshot label depth
  | .block b, .block b', hinj, h => by
    simp only [snapshot, NodeSnapshot.node.injEq, true_and, and_true] at h
    rw [hinj b (by simp [blocks, fold]) b' (by simp [blocks, fold]) h]
  | .block b, .node id kind depth' first children, hinj, h => by
    simp only [snapshot, NodeSnapshot.node.injEq] at h
    exact absurd h.1.symm kind.name_ne_blockKind
  | .node id kind depth' first children, .block b, hinj, h => by
    simp only [snapshot, NodeSnapshot.node.injEq] at h
    exact absurd h.1 kind.name_ne_blockKind
  | .node id kind depth' first children, .node id' kind' depth'' first' children', hinj, h => by
    simp only [snapshot, NodeSnapshot.node.injEq, Int.natCast_inj, true_and] at h
    obtain ⟨hkind, rfl, hchildren⟩ := h
    rw [blocks_node, blocks_node] at hinj
    simp only [snapshot, hkind, snapshotAll_relabel children children' hinj hchildren]

theorem snapshotAll_relabel {depth : Nat} : (rs rs' : List Region) →
    (∀ b ∈ blocksAll rs, ∀ b' ∈ blocksAll rs', name b = name b' → b = b') →
    snapshotAll name depth rs = snapshotAll name depth rs' → snapshotAll label depth rs = snapshotAll label depth rs'
  | [], [], _, _ => rfl
  | [], r' :: rs', _, h => by simp [snapshotAll] at h
  | r :: rs, [], _, h => by simp [snapshotAll] at h
  | r :: rs, r' :: rs', hinj, h => by
    simp only [snapshotAll, List.cons.injEq] at h
    simp only [blocksAll_cons, List.mem_append] at hinj
    rw [snapshotAll, snapshotAll,
      snapshot_relabel r r' (fun b hb b' hb' => hinj b (Or.inl hb) b' (Or.inl hb')) h.1,
      snapshotAll_relabel rs rs' (fun b hb b' hb' => hinj b (Or.inr hb) b' (Or.inr hb')) h.2]

end

theorem snapshot_ne_absent (depth : Nat) (r : Region) : r.snapshot name depth ≠ .absent := by
  cases r <;> simp [snapshot]

end Region

namespace Analysis

variable {f f' : Function} {g g' : FlowGraph}

theorem graph?_run (f : Function) : (run f).outcome.graph? = (FlowGraph.build f).toOption := by
  unfold run
  cases FlowGraph.build f with
  | error d => rfl
  | ok g => simp only; split <;> rfl

theorem tree?_run (h : FlowGraph.build f = .ok g) :
    (run f).outcome.tree? = (Tree.build g (.none g)).1.toOption := by
  unfold run
  simp only [h]
  cases (Tree.build g (.none g)).1 <;> rfl

theorem tree?_run_eq_some (h : FlowGraph.build f = .ok g) {t : Tree} (ht : (run f).outcome.tree? = some t) :
    t.graph = g ∧ ∀ b ∈ t.region.blocks, b < g.size := by
  have hg := FlowGraph.build_linked h
  have hbuild : (Tree.build g (.none g)).1 = .ok t := by
    rw [tree?_run h] at ht
    cases hbuild : (Tree.build g (.none g)).1 with
    | error e => rw [hbuild] at ht; cases ht
    | ok t' => rw [hbuild] at ht; cases ht; rfl
  obtain ⟨sketch, unvisited, hbuilt⟩ := Tree.build_ok hg hbuild
  refine ⟨hbuilt.graph_eq, fun b hb => hg.lt_of_reached ?_⟩
  rwa [← hbuilt.mem_blocks_iff hg, ← hbuilt.blockList_eq, t.blockList_eq]

theorem relabel_tree_eq (h : FlowGraph.build f = .ok g) (h' : FlowGraph.build f' = .ok g')
    (hnames : (g.blocks.toList.map (·.name)).Nodup)
    (hlist : g'.blocks.toList.map (·.name) = g.blocks.toList.map (·.name))
    (htree : (run f').outcome.treeSnapshot = (run f).outcome.treeSnapshot) (label : BlockId → String) :
    (run f').outcome.tree?.map (fun t => t.region.snapshot label 0) =
      (run f).outcome.tree?.map fun t => t.region.snapshot label 0 := by
  have hname := FlowGraph.blockName_congr hlist
  have hsize : g'.size = g.size := by rw [FlowGraph.size_eq, FlowGraph.size_eq, hlist]
  unfold Outcome.treeSnapshot at htree
  cases ht : (run f).outcome.tree? with
  | none =>
    cases ht' : (run f').outcome.tree? with
    | none => rfl
    | some t' =>
      rw [ht, ht'] at htree
      exact absurd htree (Region.snapshot_ne_absent 0 _)
  | some t =>
    cases ht' : (run f').outcome.tree? with
    | none =>
      rw [ht, ht'] at htree
      exact absurd htree.symm (Region.snapshot_ne_absent 0 _)
    | some t' =>
      obtain ⟨rfl, hblocks⟩ := tree?_run_eq_some h ht
      obtain ⟨rfl, hblocks'⟩ := tree?_run_eq_some h' ht'
      rw [ht, ht', Option.map_some, Option.map_some, Option.getD_some, Option.getD_some, hname] at htree
      rw [Option.map_some, Option.map_some, Option.some.injEq]
      -- Blocks of one name are one block, so that the names in the snapshot give the blocks.
      refine Region.snapshot_relabel label _ _ (fun b hb b' hb' heq => ?_) htree
      exact FlowGraph.eq_of_blockName_eq hnames (hsize ▸ hblocks' b hb) (hblocks b' hb') heq

end Analysis

/-! ### Functions of texts -/

/-- The blocks of a function that comes from a text are known by their names, unless a label without a result stands
beside a label called `0`. Then whatever function has the same snapshot has the same graph, but for the instructions in
its blocks, and the same tree, whatever the blocks are called. -/
theorem blocks_known_by_name {file : String} {source : Text} {m : Module} {f : Function} {g : FlowGraph}
    (accepted : (Module.ofText file source).1 = some m) (lowered : f ∈ m.functions) (built : FlowGraph.build f = .ok g) :
    ((g.blocks.toList.map (·.name)).Nodup ↔ ¬f.SharesZero) ∧
      (¬f.SharesZero → ∀ f', (Analysis.run f').snapshot = (Analysis.run f).snapshot → ∃ g', FlowGraph.build f' = .ok g' ∧
        g'.blocks.toList.map (·.name) = g.blocks.toList.map (·.name) ∧
        g' = { g with function := f', blocks := g'.blocks } ∧
        ∀ label : BlockId → String, (Analysis.run f').outcome.tree?.map (fun t => t.region.snapshot label 0) =
          (Analysis.run f).outcome.tree?.map fun t => t.region.snapshot label 0) := by
  have hiff := FlowGraph.nodup_names_iff (wellNamed_of_ofText accepted lowered) built
  refine ⟨hiff, fun hshares f' hsnapshot => ?_⟩
  have hnames := hiff.mpr hshares
  obtain ⟨-, hblocks, hedges, htree, -⟩ := FunctionSnapshot.mk.inj hsnapshot
  rw [Analysis.graph?_run, Analysis.graph?_run, built] at hblocks hedges
  cases built' : FlowGraph.build f' with
  | error d =>
    rw [built'] at hblocks
    have hnone : g.blocks.toList.map (·.name) = [] := by
      rw [← g.names_blockSnapshots, show g.blockSnapshots = [] from hblocks.symm, List.map_nil]
    have hpos := (FlowGraph.build_linked built).size_pos
    rw [FlowGraph.size_eq, hnone] at hpos
    cases hpos
  | ok g' =>
    rw [built'] at hblocks hedges
    obtain ⟨hlist, hgraph⟩ := FlowGraph.build_eq_of_snapshots built built' hnames hblocks hedges
    exact ⟨g', rfl, hlist, hgraph, Analysis.relabel_tree_eq built built' hnames hlist htree⟩

/-- A block that returns, and a block that branches to the label of the given name, which has the id one. A label with
the id zero is one without a result. -/
def labelSample (name : String) (first second : Id) : Function where
  name := "main"
  instructions := [
    { op := .label, mnemonic := "OpLabel", result := first, position := ⟨"a", 1, 1⟩ },
    { op := .return, mnemonic := "OpReturn", position := ⟨"a", 2, 1⟩ },
    { op := .label, mnemonic := "OpLabel", result := second, position := ⟨"a", 3, 1⟩ },
    { op := .branch, mnemonic := "OpBranch", operands := [.ofId 1], position := ⟨"a", 4, 1⟩ }]
  names := ⟨[(name, 1)]⟩

/-- A label without a result beside a label called `1`. -/
theorem blocks_known_by_name_resultless :
    (Module.ofText "a" (.ofString "OpLabel\nOpReturn\n%1 = OpLabel\nOpBranch %1\n")).1 =
        some ⟨"a", [labelSample "1" 0 1]⟩ ∧ ¬(labelSample "1" 0 1).SharesZero ∧
      ∃ g, FlowGraph.build (labelSample "1" 0 1) = .ok g ∧ (g.blocks.toList.map (·.name)).Nodup ∧
        ∀ f', (Analysis.run f').snapshot = (Analysis.run (labelSample "1" 0 1)).snapshot →
          ∃ g', FlowGraph.build f' = .ok g' ∧ g'.blocks.toList.map (·.name) = g.blocks.toList.map (·.name) ∧
            g' = { g with function := f', blocks := g'.blocks } ∧
            ∀ label : BlockId → String, (Analysis.run f').outcome.tree?.map (fun t => t.region.snapshot label 0) =
              (Analysis.run (labelSample "1" 0 1)).outcome.tree?.map fun t => t.region.snapshot label 0 := by
  have haccepted : (Module.ofText "a" (.ofString "OpLabel\nOpReturn\n%1 = OpLabel\nOpBranch %1\n")).1 =
      some ⟨"a", [labelSample "1" 0 1]⟩ := by decide +kernel
  have hshares : ¬(labelSample "1" 0 1).SharesZero := by
    rintro ⟨-, -, l, -, hl⟩
    simpa [labelSample] using NameTable.mem_of_name? hl
  have hgraph : hasGraph (labelSample "1" 0 1) (fun _ => true) = true := by decide +kernel
  obtain ⟨g, hg, -⟩ := exists_of_hasGraph hgraph
  obtain ⟨hnames, hknown⟩ := blocks_known_by_name haccepted (List.mem_singleton_self _) hg
  exact ⟨haccepted, hshares, g, hg, hnames.mpr hshares, hknown hshares⟩

/-- Two texts that are accepted and have two blocks called `0` each, a different edge and the same snapshot. -/
theorem blocks_share_name :
    (Module.ofText "a" (.ofString "OpLabel\nOpReturn\n%0 = OpLabel\nOpBranch %0\n")).1 =
        some ⟨"a", [labelSample "0" 0 1]⟩ ∧
      (Module.ofText "a" (.ofString "%0 = OpLabel\nOpReturn\nOpLabel\nOpBranch %0\n")).1 =
        some ⟨"a", [labelSample "0" 1 0]⟩ ∧
      (∃ g g', FlowGraph.build (labelSample "0" 0 1) = .ok g ∧ FlowGraph.build (labelSample "0" 1 0) = .ok g' ∧
        g.blocks.toList.map (·.name) = ["0", "0"] ∧ g'.blocks.toList.map (·.name) = ["0", "0"] ∧
        g.edges = #[⟨0, 1, 1⟩] ∧ g'.edges = #[⟨0, 1, 0⟩]) ∧
      (Analysis.run (labelSample "0" 0 1)).snapshot = (Analysis.run (labelSample "0" 1 0)).snapshot := by
  have first : hasGraph (labelSample "0" 0 1) (fun g =>
      g.blocks.toList.map (·.name) = ["0", "0"] ∧ g.edges = #[⟨0, 1, 1⟩]) = true := by decide +kernel
  have second : hasGraph (labelSample "0" 1 0) (fun g =>
      g.blocks.toList.map (·.name) = ["0", "0"] ∧ g.edges = #[⟨0, 1, 0⟩]) = true := by decide +kernel
  obtain ⟨g, hg, htest⟩ := exists_of_hasGraph first
  obtain ⟨g', hg', htest'⟩ := exists_of_hasGraph second
  obtain ⟨hnames, hedges⟩ := of_decide_eq_true htest
  obtain ⟨hnames', hedges'⟩ := of_decide_eq_true htest'
  exact ⟨by decide +kernel, by decide +kernel, ⟨g, g', hg, hg', hnames, hnames', hedges, hedges'⟩, by cbv⟩

end FlowTree
