import FlowTree.Proofs.FlowGraph.Linking
import Mathlib.Logic.Relation

/-!
What a built graph promises to those who walk it. Every block ends in a terminator whose labels name
its successors, every label of a merge instruction is that of a block, and the tables of edges hold
what the links between the blocks say. `Linked` collects these facts; `build_linked` says that they
hold of every graph that was built.
-/

namespace FlowTree

namespace FlowGraph

/-- A path of edges leads from the one block to the other. -/
def Leads (g : FlowGraph) : BlockId → BlockId → Prop :=
  Relation.ReflTransGen fun u v => v ∈ g.successors u

/-- A path of edges leads to the block from the entry. -/
def Reached (g : FlowGraph) (b : BlockId) : Prop := g.Leads g.entry b

/-- The outgoing edges of a block, each with the block that it leads to. -/
def transfers (g : FlowGraph) (b : BlockId) : List (BlockId × EdgeId) :=
  (g.outgoingEdges b).filterMap fun e => (g.target? e).map fun target => (target, e)

theorem successors_eq_transfers (g : FlowGraph) (b : BlockId) :
    g.successors b = (g.transfers b).map (·.1) := by
  simp only [successors, transfers, List.map_filterMap, Option.map_map]
  congr 1
  funext e
  cases g.target? e <;> rfl

/-- What the rest of the library relies on in a graph. -/
structure Linked (g : FlowGraph) : Prop where
  size_pos : 0 < g.size
  outgoing_size : g.outgoing.size = g.size
  edge : ∀ b, ∀ e ∈ g.outgoingEdges b, ∃ edge, g.edges[e]? = some edge ∧ edge.source = b ∧ edge.target < g.size
  terminator : ∀ b block, g.block? b = some block → ∃ i labels targets, block.terminator? = some i ∧
    i.branchTargets? = some labels ∧ labels.mapM g.blockOf? = some targets ∧
    g.successors b = targets.eraseDups
  merge : ∀ b block merge, g.block? b = some block → block.merge? = some merge → ∃ labels,
    mergeLabels? merge = some labels ∧ ∀ label ∈ labels, ∃ m, g.blockOf? label = some m

theorem mem_transfers {g : FlowGraph} {b v : BlockId} {e : EdgeId} :
    (v, e) ∈ g.transfers b ↔ e ∈ g.outgoingEdges b ∧ g.target? e = some v := by
  simp only [transfers, List.mem_filterMap, Option.map_eq_some_iff, Prod.mk.injEq]
  constructor
  · rintro ⟨_, he, _, ht, rfl, rfl⟩
    exact ⟨he, ht⟩
  · rintro ⟨he, ht⟩
    exact ⟨e, he, v, ht, rfl, rfl⟩

theorem mem_successors_iff {g : FlowGraph} {b v : BlockId} : v ∈ g.successors b ↔ ∃ e, (v, e) ∈ g.transfers b := by
  simp [successors_eq_transfers]

theorem Leads.tail {g : FlowGraph} {a b c : BlockId} (h : g.Leads a b) (hc : c ∈ g.successors b) : g.Leads a c :=
  Relation.ReflTransGen.tail h hc

/-! ### The tables of a graph -/

theorem filterMap_edgesWhere {γ : Type} (edges : List Edge) (p : Edge → Bool) (f : Edge → γ) :
    (edgesWhere edges p).filterMap (fun e => edges[e]?.map f) = (edges.filter p).map f := by
  have key : ∀ (rest : List Edge) (k : Nat), (∀ i, edges[k + i]? = rest[i]?) →
      (((rest.zipIdx k).filter fun x => p x.1).map (·.2)).filterMap (fun e => edges[e]?.map f) =
        (rest.filter p).map f := by
    intro rest
    induction rest with
    | nil => simp
    | cons a rest ih =>
      intro k hk
      have ha : edges[k]? = some a := by simpa using hk 0
      have htail := ih (k + 1) fun i => by simpa [Nat.add_assoc, Nat.add_comm 1 i] using hk (i + 1)
      by_cases hp : p a
      · simp [List.zipIdx_cons, hp, ha, htail]
      · simp [List.zipIdx_cons, hp, htail]
  exact key edges 0 (by simp)

theorem mem_edgesWhere {edges : List Edge} {p : Edge → Bool} {e : EdgeId} :
    e ∈ edgesWhere edges p ↔ ∃ edge, edges[e]? = some edge ∧ p edge = true := by
  simp only [edgesWhere, List.mem_map, List.mem_filter]
  constructor
  · rintro ⟨⟨edge, index⟩, ⟨hmem, hp⟩, rfl⟩
    exact ⟨edge, List.mem_zipIdx_iff_getElem?.mp hmem, hp⟩
  · rintro ⟨edge, hedge, hp⟩
    exact ⟨(edge, e), ⟨List.mem_zipIdx_iff_getElem?.mpr hedge, hp⟩, rfl⟩

theorem source_lt_of_mem_edgesOf {links : List (List BlockId)} {edge : Edge} (h : edge ∈ edgesOf links) :
    edge.source < links.length := by
  have hends : edge.ends ∈ endsOf links := map_ends_numbered (endsOf links) ▸ List.mem_map_of_mem h
  obtain ⟨⟨targets, source⟩, hmem, hedge⟩ := List.mem_flatMap.mp hends
  obtain ⟨target, -, heq⟩ := List.mem_map.mp hedge
  obtain rfl : source = edge.source := congrArg Prod.fst heq
  exact (List.getElem?_eq_some_iff.mp (List.mem_zipIdx_iff_getElem?.mp hmem)).1

theorem filter_endsOf (links : List (List BlockId)) (b : Nat) :
    (endsOf links).filter (·.1 = b) = (links[b]?.getD []).map (b, ·) := by
  have key : ∀ (rest : List (List BlockId)) (k : Nat),
      ((rest.zipIdx k).flatMap fun link => link.1.map fun target => (link.2, target)).filter (·.1 = b) =
        if k ≤ b then (rest[b - k]?.getD []).map (b, ·) else [] := by
    intro rest
    induction rest with
    | nil => simp
    | cons targets rest ih =>
      intro k
      rw [List.zipIdx_cons, List.flatMap_cons, List.filter_append, ih (k + 1), List.filter_map]
      rcases Nat.lt_trichotomy k b with hlt | rfl | hgt
      · have hne : k ≠ b := by omega
        obtain ⟨j, rfl⟩ : ∃ j, b = k + 1 + j := Nat.exists_eq_add_of_le hlt
        have h1 : k + 1 + j - k = j + 1 := by omega
        have h2 : k + 1 + j - (k + 1) = j := by omega
        simp [hne, Function.comp_def, h1, h2, show k ≤ k + 1 + j by omega]
      · simp [Function.comp_def, show ¬ k + 1 ≤ k by omega]
      · have hne : k ≠ b := by omega
        simp [hne, Function.comp_def, show ¬ k ≤ b by omega, show ¬ k + 1 ≤ b by omega]
  simpa [endsOf] using key links 0

/-- The edges that leave a block lead to its successors. -/
theorem map_target_filter_edgesOf (links : List (List BlockId)) (b : Nat) :
    ((edgesOf links).filter (·.source = b)).map (·.target) = links[b]?.getD [] := by
  have hends : ((edgesOf links).filter (·.source = b)).map Edge.ends = (endsOf links).filter (·.1 = b) := by
    conv_rhs => rw [← map_ends_numbered (endsOf links), List.filter_map]
    rfl
  have htargets := congrArg (List.map Prod.snd) hends
  rw [filter_endsOf, List.map_map, List.map_map] at htargets
  exact htargets.trans (List.map_id _)

theorem blockOf?_lt {g : FlowGraph} {label : Id} {b : BlockId} (h : g.blockOf? label = some b) : b < g.size :=
  (Array.findIdx?_eq_some_iff_getElem.mp h).1

theorem block?_eq_some_of_lt {g : FlowGraph} {b : BlockId} (h : b < g.size) : ∃ block, g.block? b = some block :=
  ⟨g.blocks[b], Array.getElem?_eq_getElem h⟩

theorem lt_of_block?_eq_some {g : FlowGraph} {b : BlockId} {block : Block} (h : g.block? b = some block) :
    b < g.size := by
  obtain ⟨hlt, -⟩ := Array.getElem?_eq_some_iff.mp h
  exact hlt

/-! ### Cutting and linking -/

theorem op_of_loopMerge? {i : Instruction} {labels : Id × Id} (h : i.loopMerge? = some labels) : i.op = .loopMerge := by
  by_contra hop
  simp [Instruction.loopMerge?, Instruction.loopLabels, hop] at h

theorem op_of_conditionalTargets? {i : Instruction} {labels : Id × Id} (h : i.conditionalTargets? = some labels) :
    i.op = .branchConditional := by
  by_contra hop
  simp [Instruction.conditionalTargets?, Instruction.conditionalLabels, hop] at h

theorem op_of_switchCases? {i : Instruction} {labels : Id × List SwitchCase} (h : i.switchCases? = some labels) :
    i.op = .switch := by
  by_contra hop
  simp [Instruction.switchCases?, hop] at h

/-- The block ends in a terminator. -/
def Terminated (b : Block) : Prop := ∃ i, b.terminator? = some i ∧ i.op.isTerminator = true

/-- The merge instruction of a block that ends in the given instruction is the one before it. -/
theorem merge?_of_concat {b : Block} {front : List Instruction} {i : Instruction} (h : b.instructions = front ++ [i]) :
    b.merge? = front.getLast?.filter (·.op.isMerge) := by
  unfold Block.merge?
  rw [h, List.reverse_concat, ← List.head?_reverse]
  cases front.reverse <;> simp [Option.filter]

theorem step_terminated {f : Function} {c c' : Cut} {i : Instruction} (h : c.step f i = .ok c')
    (hc : ∀ b ∈ c.blocks, Terminated b) : ∀ b ∈ c'.blocks, Terminated b := by
  unfold Cut.step at h
  cases hopen : c.open? with
  | none =>
    simp only [hopen] at h
    split at h
    · cases h
      exact hc
    · split at h
      · cases h
      · split at h <;> cases h
        exact hc
  | some b =>
    simp only [hopen] at h
    split at h
    · cases h
    · split at h
      · cases h
        rename_i hterminator
        intro b' hb'
        rcases List.mem_append.mp hb' with hb' | hb'
        · exact hc b' hb'
        · rw [List.mem_singleton.mp hb']
          exact ⟨i, List.getLast?_concat, hterminator⟩
      · cases h
        exact hc

theorem foldlM_terminated {f : Function} {is : List Instruction} {c c' : Cut} (h : is.foldlM (Cut.step f) c = .ok c')
    (hc : ∀ b ∈ c.blocks, Terminated b) : ∀ b ∈ c'.blocks, Terminated b := by
  induction is generalizing c with
  | nil =>
    cases h
    exact hc
  | cons i is ih =>
    rw [List.foldlM_cons] at h
    obtain ⟨next, hnext, h⟩ := Except.bind_eq_ok_iff.mp h
    exact ih h (step_terminated hnext hc)

theorem cutBlocks_ok {f : Function} {blocks : List Block} (h : cutBlocks f = .ok blocks) :
    blocks ≠ [] ∧ ∀ b ∈ blocks, Terminated b := by
  obtain ⟨c, hc, h⟩ := Except.bind_eq_ok_iff.mp h
  cases hopen : c.open? with
  | some b => simp [hopen] at h
  | none =>
    simp only [hopen] at h
    split at h
    · cases h
    · cases h
      exact ⟨by simpa using ‹¬c.blocks.isEmpty = true›, foldlM_terminated hc (by simp)⟩

/-- What linking says of one block: its terminator names the successors, and its merge labels exist. -/
structure LinkedBlock (blocks : List Block) (b : Block) (targets : List BlockId) : Prop where
  terminator : ∃ i labels resolved, b.terminator? = some i ∧ i.branchTargets? = some labels ∧
    labels.mapM (fun label => blocks.findIdx? (·.label = label)) = some resolved ∧ targets = resolved.eraseDups
  merge : ∀ merge, b.merge? = some merge → ∃ labels, mergeLabels? merge = some labels ∧
    ∀ label ∈ labels, ∃ m, blocks.findIdx? (·.label = label) = some m

/-- The successors of a block are blocks. -/
theorem LinkedBlock.lt {blocks : List Block} {b : Block} {targets : List BlockId} (h : LinkedBlock blocks b targets) :
    ∀ target ∈ targets, target < blocks.length := by
  obtain ⟨_, labels, resolved, -, -, hmap, rfl⟩ := h.terminator
  intro target htarget
  obtain ⟨label, -, hfound⟩ := exists_of_mem_right (forall₂_of_mapM_some hmap) (List.mem_eraseDups.mp htarget)
  exact (List.findIdx?_eq_some_iff_getElem.mp hfound).1

theorem targetsOf_ok {f : Function} {blocks : List Block} {i : Instruction} {targets : List BlockId}
    (h : targetsOf f blocks i = .ok targets) : ∃ labels resolved, i.branchTargets? = some labels ∧
      labels.mapM (fun label => blocks.findIdx? (·.label = label)) = some resolved ∧ targets = resolved.eraseDups := by
  unfold targetsOf at h
  cases hlabels : i.branchTargets? with
  | none => simp [hlabels] at h
  | some labels =>
    simp only [hlabels] at h
    obtain ⟨resolved, hresolved, hdups⟩ := Except.bind_eq_ok_iff.mp h
    have hsome := (forall₂_of_mapM_ok hresolved).imp fun _ _ hr => resolve_eq_ok.mp hr
    cases hdups
    exact ⟨labels, resolved, rfl, mapM_some_forall₂ hsome, rfl⟩

theorem checkMerge_ok {f : Function} {blocks : List Block} {b : Block} (h : checkMerge f blocks b = .ok ())
    {merge : Instruction} (hm : b.merge? = some merge) : ∃ labels, mergeLabels? merge = some labels ∧
      ∀ label ∈ labels, ∃ m, blocks.findIdx? (·.label = label) = some m := by
  simp only [checkMerge, hm] at h
  cases hlabels : mergeLabels? merge with
  | none => simp [hlabels] at h
  | some labels =>
    simp only [hlabels] at h
    refine ⟨labels, rfl, fun label hlabel => ?_⟩
    obtain ⟨m, hr, -⟩ := Except.bind_eq_ok_iff.mp (eq_ok_of_forM_ok h label hlabel)
    exact ⟨m, resolve_eq_ok.mp hr⟩

/-- The stages of linking a block. -/
theorem linkBlock_eq_ok {f : Function} {blocks : List Block} {b : Block} {targets : List BlockId}
    (h : linkBlock f blocks b = .ok targets) :
    checkMerge f blocks b = .ok () ∧ ∃ i, b.terminator? = some i ∧ targetsOf f blocks i = .ok targets := by
  obtain ⟨_, hmerge, h⟩ := Except.bind_eq_ok_iff.mp h
  refine ⟨Except.mapError_eq_ok_iff.mp hmerge, ?_⟩
  cases hi : b.terminator? with
  | none => simp [hi] at h
  | some i =>
    rw [hi] at h
    exact ⟨i, rfl, Except.mapError_eq_ok_iff.mp h⟩

theorem linkBlocks_ok {f : Function} {blocks : List Block} {links : List (List BlockId)}
    (h : linkBlocks f blocks = .ok links) : List.Forall₂ (LinkedBlock blocks) blocks links := by
  refine (forall₂_of_mapM_ok h).imp fun b targets hb => ?_
  obtain ⟨hmerge, i, hi, htargets⟩ := linkBlock_eq_ok hb
  obtain ⟨labels, resolved, hlabels, hmap, hdups⟩ := targetsOf_ok htargets
  exact ⟨⟨i, labels, resolved, hi, hlabels, hmap, hdups⟩, fun _ hm => checkMerge_ok hmerge hm⟩

/-- Building is cutting and linking: a function without instructions has no blocks either. -/
theorem build_eq_bind (f : Function) : build f = (cutBlocks f).mapError .rejected >>= fun blocks =>
    linkBlocks f blocks >>= fun links => .ok (ofLinks f blocks links) := by
  unfold build
  split
  · have hnil : f.instructions = [] := by simpa using ‹f.instructions.isEmpty = true›
    simp [cutBlocks, hnil, bind, Except.bind, pure, Except.pure, Except.mapError]
  · cases cutBlocks f with
    | error d => rfl
    | ok blocks =>
      change (link f blocks >>= _) = (linkBlocks f blocks >>= _)
      rw [link_eq]
      cases linkBlocks f blocks <;> rfl

theorem build_of_links {f : Function} {blocks : List Block} {links : List (List BlockId)} (hcut : cutBlocks f = .ok blocks)
    (hlinks : linkBlocks f blocks = .ok links) : build f = .ok (ofLinks f blocks links) := by
  rw [build_eq_bind, hcut]
  simp only [bind, Except.bind, Except.mapError, hlinks]

/-- The stages of a successful build. -/
theorem build_eq_ok {f : Function} {g : FlowGraph} (h : build f = .ok g) :
    ∃ blocks links, cutBlocks f = .ok blocks ∧ linkBlocks f blocks = .ok links ∧ g = ofLinks f blocks links := by
  rw [build_eq_bind] at h
  obtain ⟨blocks, hblocks, h⟩ := Except.bind_eq_ok_iff.mp h
  obtain ⟨links, hlinks, h⟩ := Except.bind_eq_ok_iff.mp h
  cases h
  exact ⟨blocks, links, Except.mapError_eq_ok_iff.mp hblocks, hlinks, rfl⟩

section OfLinks
variable {f : Function} {blocks : List Block} {links : List (List BlockId)}

theorem blockOf?_ofLinks (label : Id) :
    (ofLinks f blocks links).blockOf? label = blocks.findIdx? (·.label = label) := by
  simp [blockOf?]

theorem outgoingEdges_ofLinks {b : BlockId} (hb : b < blocks.length) :
    (ofLinks f blocks links).outgoingEdges b = edgesWhere (edgesOf links) (·.source = b) := by
  simp [outgoingEdges, outgoing_ofLinks, hb]

theorem successors_ofLinks (hlength : blocks.length = links.length) (b : BlockId) :
    (ofLinks f blocks links).successors b = links[b]?.getD [] := by
  by_cases hb : b < blocks.length
  · unfold successors
    rw [outgoingEdges_ofLinks hb]
    have htarget : (ofLinks f blocks links).target? = fun e => (edgesOf links)[e]?.map (·.target) := by
      funext e
      simp [target?, edges_ofLinks]
    rw [htarget, filterMap_edgesWhere, map_target_filter_edgesOf]
  · have hout : (ofLinks f blocks links).outgoingEdges b = [] := by simp [outgoingEdges, outgoing_ofLinks, hb]
    simp [successors, hout, List.getElem?_eq_none (hlength ▸ Nat.le_of_not_lt hb)]

end OfLinks

/-- Every graph that was built is linked. -/
theorem build_linked {f : Function} {g : FlowGraph} (h : build f = .ok g) : g.Linked := by
  obtain ⟨blocks, links, hcut, hlink, rfl⟩ := build_eq_ok h
  have hne := (cutBlocks_ok hcut).1
  have hlinked := linkBlocks_ok hlink
  have hlength := hlinked.length_eq
  have hsize : (ofLinks f blocks links).size = blocks.length := size_ofLinks
  have hblock : ∀ b block, (ofLinks f blocks links).block? b = some block →
      ∃ targets, links[b]? = some targets ∧ LinkedBlock blocks block targets := by
    intro b block hb
    have hb' : blocks[b]? = some block := by simpa [block?] using hb
    obtain ⟨hlt, rfl⟩ := List.getElem?_eq_some_iff.mp hb'
    exact ⟨links[b], List.getElem?_eq_getElem (hlength ▸ hlt), hlinked.get hlt (hlength ▸ hlt)⟩
  have hresolve : (ofLinks f blocks links).blockOf? = fun label => blocks.findIdx? (·.label = label) :=
    funext blockOf?_ofLinks
  refine ⟨?_, by rw [hsize, outgoing_ofLinks]; simp, fun b e he => ?_, fun b block hb => ?_, fun b block merge hb hm => ?_⟩
  · rw [hsize]
    exact List.length_pos_iff.mpr hne
  · have hb : b < blocks.length := by
      by_contra hb
      simp [outgoingEdges, outgoing_ofLinks, hb] at he
    rw [outgoingEdges_ofLinks hb] at he
    obtain ⟨edge, hedge, hsource⟩ := mem_edgesWhere.mp he
    refine ⟨edge, by simpa [edges_ofLinks] using hedge, of_decide_eq_true hsource, ?_⟩
    -- The edge leads to one of the block's own targets, and these were all resolved.
    have hmem : edge.target ∈ ((edgesOf links).filter (·.source = b)).map (·.target) :=
      List.mem_map_of_mem (List.mem_filter.mpr ⟨List.mem_of_getElem? hedge, hsource⟩)
    obtain ⟨block, hblk⟩ := block?_eq_some_of_lt (g := ofLinks f blocks links) (hsize ▸ hb)
    obtain ⟨targets, ht, hlb⟩ := hblock b block hblk
    rw [map_target_filter_edgesOf, ht] at hmem
    rw [hsize]
    exact hlb.lt _ hmem
  · obtain ⟨targets, ht, hlb⟩ := hblock b block hb
    obtain ⟨i, labels, resolved, hi, hlabels, hmap, rfl⟩ := hlb.terminator
    refine ⟨i, labels, resolved, hi, hlabels, by rw [hresolve]; exact hmap, ?_⟩
    rw [successors_ofLinks hlength, ht]
    rfl
  · obtain ⟨targets, -, hlb⟩ := hblock b block hb
    obtain ⟨labels, hlabels, hm⟩ := hlb.merge merge hm
    refine ⟨labels, hlabels, fun label hl => ?_⟩
    rw [hresolve]
    exact hm label hl

/-- Every block of a built graph ends in a terminator. -/
theorem build_terminated {f : Function} {g : FlowGraph} (h : build f = .ok g) {b : BlockId} {block : Block}
    (found : g.block? b = some block) : Terminated block := by
  obtain ⟨blocks, links, hcut, -, rfl⟩ := build_eq_ok h
  have hmem : blocks[b]? = some block := by simpa [block?] using found
  exact (cutBlocks_ok hcut).2 block (List.mem_of_getElem? hmem)

/-- An edge of a built graph carries its number. -/
theorem build_edge_id {f : Function} {g : FlowGraph} (h : build f = .ok g) {e : EdgeId} {edge : Edge}
    (hedge : g.edges[e]? = some edge) : edge.id = e := by
  obtain ⟨blocks, links, -, -, rfl⟩ := build_eq_ok h
  rw [edges_ofLinks, List.getElem?_toArray, edgesOf, getElem?_numbered] at hedge
  obtain ⟨_, -, rfl⟩ := Option.map_eq_some_iff.mp hedge
  rfl

/-- The transfers of the blocks are the edges of the graph. -/
theorem build_transfers {f : Function} {g : FlowGraph} (h : build f = .ok g) {u v : BlockId} {e : EdgeId} :
    (v, e) ∈ g.transfers u ↔ g.edges[e]? = some ⟨e, u, v⟩ := by
  have hg := build_linked h
  rw [mem_transfers]
  constructor
  · rintro ⟨he, htarget⟩
    obtain ⟨⟨id, source, target⟩, hedge, rfl, -⟩ := hg.edge u e he
    obtain rfl : id = e := build_edge_id h hedge
    simp only [target?, hedge, Option.map_some, Option.some.injEq] at htarget
    exact htarget ▸ hedge
  · intro hedge
    obtain ⟨blocks, links, -, hlink, rfl⟩ := build_eq_ok h
    have hedge' : (edgesOf links)[e]? = some ⟨e, u, v⟩ := by simpa [edges_ofLinks] using hedge
    have hu : u < blocks.length :=
      (linkBlocks_ok hlink).length_eq.symm ▸ source_lt_of_mem_edgesOf (List.mem_of_getElem? hedge')
    refine ⟨?_, by simp [target?, hedge]⟩
    rw [outgoingEdges_ofLinks hu]
    exact mem_edgesWhere.mpr ⟨_, hedge', by simp⟩

/-! ### Terminators of a linked graph -/

namespace Linked
variable {g : FlowGraph} {b : BlockId} {block : Block}

theorem terminator? (hg : g.Linked) (found : g.block? b = some block) : ∃ i, block.terminator? = some i := by
  obtain ⟨i, -, -, hi, -⟩ := hg.terminator b block found
  exact ⟨i, hi⟩

theorem successors_eq_nil (hg : g.Linked) (hb : ¬b < g.size) : g.successors b = [] := by
  have hout : g.outgoingEdges b = [] := by
    simp [outgoingEdges, Array.getElem?_eq_none (hg.outgoing_size ▸ Nat.le_of_not_lt hb)]
  simp [successors, hout]

theorem successors_nodup (hg : g.Linked) (b : BlockId) : (g.successors b).Nodup := by
  by_cases hb : b < g.size
  · obtain ⟨block, found⟩ := block?_eq_some_of_lt hb
    obtain ⟨-, -, targets, -, -, -, hs⟩ := hg.terminator b block found
    rw [hs]
    exact nodup_eraseDups targets
  · simp [hg.successors_eq_nil hb]

/-- Every outgoing edge leads somewhere. -/
theorem map_transfers (hg : g.Linked) (b : BlockId) : (g.transfers b).map (·.2) = g.outgoingEdges b := by
  have key : ∀ edges : List EdgeId, (∀ e ∈ edges, ∃ t, g.target? e = some t) →
      (edges.filterMap fun e => (g.target? e).map fun target => (target, e)).map (·.2) = edges := by
    intro edges
    induction edges with
    | nil => simp
    | cons e edges ih =>
      intro h
      obtain ⟨⟨t, ht⟩, hrest⟩ := List.forall_mem_cons.mp h
      simp [ht, ih hrest]
  refine key _ fun e he => ?_
  obtain ⟨edge, hedge, -⟩ := hg.edge b e he
  exact ⟨edge.target, by simp [target?, hedge]⟩

/-- The blocks that edges lead to are blocks of the graph. -/
theorem transfers_lt (hg : g.Linked) {v : BlockId} {e : EdgeId} (h : (v, e) ∈ g.transfers b) : v < g.size := by
  obtain ⟨he, ht⟩ := mem_transfers.mp h
  obtain ⟨edge, hedge, -, hlt⟩ := hg.edge b e he
  rw [target?, hedge] at ht
  cases ht
  exact hlt

theorem outgoing (hg : g.Linked) (hb : b < g.size) : g.outgoing[b]? = some (g.outgoingEdges b) := by
  have hlt : b < g.outgoing.size := hg.outgoing_size ▸ hb
  simp [outgoingEdges, Array.getElem?_eq_getElem hlt]

theorem transfers_unique (hg : g.Linked) {v : BlockId} {e e' : EdgeId} (h : (v, e) ∈ g.transfers b)
    (h' : (v, e') ∈ g.transfers b) : e = e' := by
  have hnodup := hg.successors_nodup b
  rw [successors_eq_transfers] at hnodup
  exact congrArg Prod.snd (List.inj_on_of_nodup_map hnodup h h' rfl)

/-- The edge to a successor is the only one to it. -/
theorem edgeBetween?_eq_some_iff (hg : g.Linked) {v : BlockId} {e : EdgeId} :
    g.edgeBetween? b v = some e ↔ (v, e) ∈ g.transfers b := by
  constructor
  · intro h
    exact mem_transfers.mpr ⟨List.mem_of_find?_eq_some h, by simpa using List.find?_some h⟩
  · intro h
    obtain ⟨he, ht⟩ := mem_transfers.mp h
    have hsome : (g.edgeBetween? b v).isSome := List.find?_isSome.mpr ⟨e, he, by simpa using ht⟩
    obtain ⟨e', he'⟩ := Option.isSome_iff_exists.mp hsome
    have h' : (v, e') ∈ g.transfers b :=
      mem_transfers.mpr ⟨List.mem_of_find?_eq_some he', by simpa using List.find?_some he'⟩
    rw [he', hg.transfers_unique h' h]

/-- The terminator of a block names its successors. -/
theorem mem_successors (hg : g.Linked) {i : Instruction} (found : g.block? b = some block)
    (ends : block.terminator? = some i) : ∃ labels, i.branchTargets? = some labels ∧
      (∀ label ∈ labels, ∃ v, g.blockOf? label = some v) ∧
      ∀ v, v ∈ g.successors b ↔ ∃ label ∈ labels, g.blockOf? label = some v := by
  obtain ⟨i', labels, targets, hi', hlabels, hmap, hs⟩ := hg.terminator b block found
  rw [ends] at hi'
  cases hi'
  have hpairs := forall₂_of_mapM_some hmap
  refine ⟨labels, hlabels, fun label hl => ?_, fun v => ?_⟩
  · obtain ⟨v, -, hv⟩ := exists_of_mem_left hpairs hl
    exact ⟨v, hv⟩
  · rw [hs, List.mem_eraseDups]
    constructor
    · exact exists_of_mem_right hpairs
    · rintro ⟨label, hl, hv⟩
      obtain ⟨v', hv', hlabel⟩ := exists_of_mem_left hpairs hl
      rw [hv] at hlabel
      cases hlabel
      exact hv'

/-- A block that leaves the function has no outgoing edges. -/
theorem transfers_eq_nil_of_leaving (hg : g.Linked) (found : g.block? b = some block)
    (leaves : block.isLeaving = true) : g.transfers b = [] := by
  obtain ⟨i, ends⟩ := hg.terminator? found
  obtain ⟨labels, hlabels, -, hs⟩ := hg.mem_successors found ends
  have hop : i.op.isReturnOrKill = true := by simpa [Block.isLeaving, ends] using leaves
  have hnil : labels = [] := by
    unfold Instruction.branchTargets? at hlabels
    unfold Opcode.isReturnOrKill at hop
    split at hop <;> simp_all
  rw [List.eq_nil_iff_forall_not_mem]
  rintro ⟨v, e⟩ hmem
  obtain ⟨label, hl, -⟩ := (hs v).mp (mem_successors_iff.mpr ⟨e, hmem⟩)
  simp [hnil] at hl

/-- A conditional branch leads to its two sides. -/
theorem mem_successors_conditional (hg : g.Linked) {i : Instruction} {whenTrue whenFalse : Id}
    {sides : List BlockId} (found : g.block? b = some block) (ends : block.terminator? = some i)
    (labels : i.conditionalTargets? = some (whenTrue, whenFalse))
    (resolved : (if whenFalse = whenTrue then [whenTrue] else [whenTrue, whenFalse]).mapM g.blockOf? = some sides)
    (v : BlockId) : v ∈ g.successors b ↔ v ∈ sides := by
  have hop := op_of_conditionalTargets? labels
  obtain ⟨labels', hlabels', -, hs⟩ := hg.mem_successors found ends
  rw [Instruction.branchTargets?, hop, labels] at hlabels'
  cases hlabels'
  have hpairs := forall₂_of_mapM_some resolved
  have hmem : ∀ label, label ∈ [whenTrue, whenFalse] ↔
      label ∈ if whenFalse = whenTrue then [whenTrue] else [whenTrue, whenFalse] := by
    intro label
    split <;> simp_all
  rw [hs]
  constructor
  · rintro ⟨label, hl, hv⟩
    obtain ⟨v', hv', hlabel⟩ := exists_of_mem_left hpairs ((hmem label).mp hl)
    rw [hv] at hlabel
    cases hlabel
    exact hv'
  · intro hv
    obtain ⟨label, hl, hlabel⟩ := exists_of_mem_right hpairs hv
    exact ⟨label, (hmem label).mpr hl, hlabel⟩

/-- A switch leads to its default and to its cases. -/
theorem mem_successors_switch (hg : g.Linked) {i : Instruction} {defaultLabel : Id} {cases : List SwitchCase}
    {default : BlockId} {caseBlocks : List BlockId} (found : g.block? b = some block)
    (ends : block.terminator? = some i) (labels : i.switchCases? = some (defaultLabel, cases))
    (defaultBlock : g.blockOf? defaultLabel = some default)
    (resolved : cases.mapM (fun case => g.blockOf? case.target) = some caseBlocks) (v : BlockId) :
    v ∈ g.successors b ↔ v ∈ caseBlocks ∨ v = default := by
  have hop := op_of_switchCases? labels
  obtain ⟨labels', hlabels', -, hs⟩ := hg.mem_successors found ends
  rw [Instruction.branchTargets?, hop, labels] at hlabels'
  cases hlabels'
  have hpairs := forall₂_of_mapM_some resolved
  rw [hs]
  constructor
  · rintro ⟨label, hl, hv⟩
    rcases List.mem_cons.mp hl with rfl | hl
    · rw [hv] at defaultBlock
      exact Or.inr (Option.some.inj defaultBlock)
    · obtain ⟨case, hcase, rfl⟩ := List.mem_map.mp hl
      obtain ⟨v', hv', hlabel⟩ := exists_of_mem_left hpairs hcase
      rw [hv] at hlabel
      cases hlabel
      exact Or.inl hv'
  · rintro (hv | rfl)
    · obtain ⟨case, hcase, hlabel⟩ := exists_of_mem_right hpairs hv
      exact ⟨case.target, List.mem_cons_of_mem _ (List.mem_map_of_mem hcase), hlabel⟩
    · exact ⟨defaultLabel, List.mem_cons_self, defaultBlock⟩

theorem isMerge_of_merge? {block : Block} {merge : Instruction} (merges : block.merge? = some merge) :
    merge.op.isMerge = true := by
  unfold Block.merge? at merges
  split at merges
  · split at merges
    · cases merges
      assumption
    · cases merges
  · cases merges

theorem loopMerge (hg : g.Linked) {merge : Instruction} (found : g.block? b = some block)
    (merges : block.merge? = some merge) (hop : merge.op = .loopMerge) : ∃ mergeLabel continueLabel m c,
      merge.loopMerge? = some (mergeLabel, continueLabel) ∧ g.blockOf? mergeLabel = some m ∧
      g.blockOf? continueLabel = some c := by
  obtain ⟨labels, hlabels, hresolved⟩ := hg.merge b block merge found merges
  simp only [mergeLabels?, hop, Option.map_eq_some_iff] at hlabels
  obtain ⟨⟨mergeLabel, continueLabel⟩, hmerge, rfl⟩ := hlabels
  obtain ⟨m, hm⟩ := hresolved mergeLabel (by simp)
  obtain ⟨c, hc⟩ := hresolved continueLabel (by simp)
  exact ⟨mergeLabel, continueLabel, m, c, hmerge, hm, hc⟩

theorem selectionMerge (hg : g.Linked) {merge : Instruction} (found : g.block? b = some block)
    (merges : block.merge? = some merge) (hop : merge.op ≠ .loopMerge) : ∃ mergeLabel m,
      merge.selectionMerge? = some mergeLabel ∧ g.blockOf? mergeLabel = some m := by
  have hsel : merge.op = .selectionMerge := by
    have := isMerge_of_merge? merges
    cases h : merge.op <;> simp_all [Opcode.isMerge]
  obtain ⟨labels, hlabels, hresolved⟩ := hg.merge b block merge found merges
  simp only [mergeLabels?, hsel, Option.map_eq_some_iff] at hlabels
  obtain ⟨mergeLabel, hmerge, rfl⟩ := hlabels
  obtain ⟨m, hm⟩ := hresolved mergeLabel (by simp)
  exact ⟨mergeLabel, m, hmerge, hm⟩

theorem conditionalTargets (hg : g.Linked) {i : Instruction} (found : g.block? b = some block)
    (ends : block.terminator? = some i) (hop : i.op = .branchConditional) : ∃ whenTrue whenFalse sides,
      i.conditionalTargets? = some (whenTrue, whenFalse) ∧
      (if whenFalse = whenTrue then [whenTrue] else [whenTrue, whenFalse]).mapM g.blockOf? = some sides := by
  obtain ⟨labels, hlabels, hresolved, -⟩ := hg.mem_successors found ends
  simp only [Instruction.branchTargets?, hop, Option.map_eq_some_iff] at hlabels
  obtain ⟨⟨whenTrue, whenFalse⟩, htargets, rfl⟩ := hlabels
  obtain ⟨t, ht⟩ := hresolved whenTrue (by simp)
  obtain ⟨f, hf⟩ := hresolved whenFalse (by simp)
  by_cases hsame : whenFalse = whenTrue
  · exact ⟨whenTrue, whenFalse, [t], htargets, by simp [hsame, ht]⟩
  · exact ⟨whenTrue, whenFalse, [t, f], htargets, by simp [hsame, ht, hf]⟩

theorem switchCases (hg : g.Linked) {i : Instruction} (found : g.block? b = some block)
    (ends : block.terminator? = some i) (hop : i.op = .switch) : ∃ defaultLabel cases default caseBlocks,
      i.switchCases? = some (defaultLabel, cases) ∧ g.blockOf? defaultLabel = some default ∧
      cases.mapM (fun case => g.blockOf? case.target) = some caseBlocks := by
  obtain ⟨labels, hlabels, hresolved, -⟩ := hg.mem_successors found ends
  simp only [Instruction.branchTargets?, hop, Option.map_eq_some_iff] at hlabels
  obtain ⟨⟨defaultLabel, cases⟩, hcases, rfl⟩ := hlabels
  obtain ⟨default, hdefault⟩ := hresolved defaultLabel (by simp)
  have hall : ∀ case ∈ cases, ∃ v, g.blockOf? case.target = some v := fun case hcase =>
    hresolved case.target (List.mem_cons_of_mem _ (List.mem_map_of_mem hcase))
  obtain ⟨caseBlocks, hpairs⟩ : ∃ caseBlocks, List.Forall₂ (fun case v => g.blockOf? case.target = some v) cases
      caseBlocks := exists_forall₂ hall
  exact ⟨defaultLabel, cases, default, caseBlocks, hcases, hdefault, mapM_some_forall₂ hpairs⟩

end Linked

end FlowGraph

/-- The function has a graph that passes the test. A graph has no decidable equality, so samples are tested as a whole. -/
def hasGraph (f : Function) (test : FlowGraph → Bool) : Bool :=
  match FlowGraph.build f with
  | .ok g => test g
  | .error _ => false

theorem exists_of_hasGraph {f : Function} {test : FlowGraph → Bool} (h : hasGraph f test = true) :
    ∃ g, FlowGraph.build f = .ok g ∧ test g = true := by
  unfold hasGraph at h
  split at h
  · exact ⟨_, ‹_›, h⟩
  · cases h

end FlowTree
