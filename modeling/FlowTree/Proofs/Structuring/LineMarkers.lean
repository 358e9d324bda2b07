import FlowTree.Proofs.FlowGraph.Grammar
import FlowTree.Proofs.Reordering.BlockOrder
import FlowTree.Proofs.Structuring.Sight
import Mathlib.Data.List.Induction

/-!
Line markers have no meaning. A function without its line markers is cut into the same blocks, less the markers in them,
and the blocks are linked in the same way. The one thing that a marker can change is which instruction stands right
before a terminator: a merge instruction with markers behind it is not seen. Where no merge instruction is hidden in
this way, both functions have graphs that look the same, so they are structured in the same way.
-/

namespace FlowTree

open FlowGraph

/-- The function without its line markers. -/
def Function.unmarked (f : Function) : Function :=
  { f with instructions := f.instructions.filter (!·.op.isDebugLine) }

/-- The block without its line markers. -/
def Block.unmarked (b : Block) : Block :=
  { b with instructions := b.instructions.filter (!·.op.isDebugLine) }

/-- What was cut without its line markers. -/
def FlowGraph.Cut.unmarked (c : Cut) : Cut := ⟨c.blocks.map Block.unmarked, c.open?.map Block.unmarked⟩

/-- The graph of the function without its line markers. -/
def FlowGraph.unmarked (g : FlowGraph) : FlowGraph :=
  { g with function := g.function.unmarked, blocks := g.blocks.map Block.unmarked }

/-- Line markers stand between a merge instruction and the terminator behind it. -/
def Function.HidesMerge (f : Function) : Prop :=
  ∃ before merge markers terminator after, f.instructions = before ++ merge :: (markers ++ terminator :: after) ∧
    merge.op.isMerge = true ∧ markers ≠ [] ∧ (∀ i ∈ markers, i.op.isDebugLine = true) ∧ terminator.op.isTerminator = true

theorem not_isDebugLine_of_isTerminator {i : Instruction} (h : i.op.isTerminator = true) : i.op.isDebugLine = false := by
  cases hop : i.op <;> simp_all [Opcode.isTerminator, Opcode.isDebugLine]

theorem not_isDebugLine_of_isMerge {i : Instruction} (h : i.op.isMerge = true) : i.op.isDebugLine = false := by
  cases hop : i.op <;> simp_all [Opcode.isMerge, Opcode.isDebugLine]

section
variable {f : Function}

/-- A line marker is taken without effect on the rest. -/
theorem step_marker {c : Cut} {i : Instruction} (h : i.op.isDebugLine = true) :
    ∃ c', c.step f i = .ok c' ∧ c'.unmarked = c.unmarked := by
  have hlabel : i.op ≠ .label := fun hop => by
    rw [hop] at h
    cases h
  have hterminator : i.op.isTerminator = false := by
    by_contra hne
    rw [not_isDebugLine_of_isTerminator (by simpa using hne)] at h
    cases h
  rcases c with ⟨blocks, _ | b⟩
  · exact ⟨⟨blocks, none⟩, by simp [Cut.step, h], rfl⟩
  · exact ⟨_, by simp [Cut.step, hlabel, hterminator]; rfl, by simp [Cut.unmarked, Block.unmarked, h]⟩

/-- Other instructions are taken in the same way. -/
theorem step_unmarked {c : Cut} {i : Instruction} (h : i.op.isDebugLine = false) :
    c.unmarked.step f.unmarked i = (c.step f i).map Cut.unmarked := by
  rcases c with ⟨blocks, _ | b⟩
  · have hany : (blocks.map Block.unmarked).any (·.label = i.result) = blocks.any (·.label = i.result) := by
      rw [List.any_map]
      rfl
    simp only [Cut.step, Cut.unmarked, Option.map_none, h, hany, Bool.false_eq_true, if_false]
    split
    · rfl
    · split <;> rfl
  · simp only [Cut.step, Cut.unmarked, Option.map_some]
    split
    · rfl
    · split <;> simp [Except.map, Cut.unmarked, Block.unmarked, h]

theorem foldlM_unmarked (is : List Instruction) (c : Cut) :
    (is.filter (!·.op.isDebugLine)).foldlM (Cut.step f.unmarked) c.unmarked =
      (is.foldlM (Cut.step f) c).map Cut.unmarked := by
  induction is generalizing c with
  | nil => rfl
  | cons i is ih =>
    rw [List.foldlM_cons]
    cases hline : i.op.isDebugLine with
    | true =>
      obtain ⟨c', hstep, hsame⟩ := step_marker (f := f) (c := c) hline
      rw [List.filter_cons_of_neg (by simp [hline]), hstep, ← hsame, ih c']
      rfl
    | false =>
      rw [List.filter_cons_of_pos (by simp [hline]), List.foldlM_cons, step_unmarked hline]
      cases c.step f i with
      | error e => rfl
      | ok next => exact ih next

/-- The blocks of the function without line markers are those of the function, without line markers. -/
theorem cutBlocks_unmarked (f : Function) : cutBlocks f.unmarked = (cutBlocks f).map (List.map Block.unmarked) := by
  have hrun : f.unmarked.instructions.foldlM (Cut.step f.unmarked) {} =
      (f.instructions.foldlM (Cut.step f) {}).map Cut.unmarked := foldlM_unmarked f.instructions {}
  unfold cutBlocks
  rw [hrun]
  cases f.instructions.foldlM (Cut.step f) {} with
  | error e => rfl
  | ok c =>
    rcases c with ⟨blocks, _ | b⟩
    · cases blocks <;> rfl
    · rfl

/-! ### Linking -/

/-- The terminator of a block is no line marker. -/
theorem terminator?_unmarked {b : Block} (h : Terminated b) : b.unmarked.terminator? = b.terminator? := by
  obtain ⟨i, hends, hterminator⟩ := h
  obtain ⟨front, hfront⟩ := List.getLast?_eq_some_iff.mp hends
  rw [hends]
  simp [Block.terminator?, Block.unmarked, hfront, not_isDebugLine_of_isTerminator hterminator]

/-- The last instruction that is no line marker is a merge instruction as the last one is, unless it is hidden. -/
theorem getLast?_unmarked (front : List Instruction) :
    (front.filter (!·.op.isDebugLine)).getLast?.filter (·.op.isMerge) = front.getLast?.filter (·.op.isMerge) ∨
      ∃ before merge markers, front = before ++ merge :: markers ∧ merge.op.isMerge = true ∧ markers ≠ [] ∧
        ∀ i ∈ markers, i.op.isDebugLine = true := by
  induction front using List.reverseRecOn with
  | nil => exact Or.inl rfl
  | append_singleton front x ih =>
    cases hline : x.op.isDebugLine with
    | false => exact Or.inl (by simp [hline])
    | true =>
      have hmerge : x.op.isMerge = false := by
        by_contra hne
        rw [not_isDebugLine_of_isMerge (by simpa using hne)] at hline
        cases hline
      rcases ih with hsame | ⟨before, merge, markers, rfl, hop, -, hmarkers⟩
      · cases hlast : front.getLast?.filter (·.op.isMerge) with
        | none => exact Or.inl (by simpa [hline, hmerge, Option.filter] using hsame.trans hlast)
        | some m =>
          obtain ⟨hm, hop⟩ := Option.filter_eq_some_iff.mp hlast
          obtain ⟨before, rfl⟩ := List.getLast?_eq_some_iff.mp hm
          exact Or.inr ⟨before, m, [x], by simp, hop, by simp, by simpa using hline⟩
      · refine Or.inr ⟨before, merge, markers ++ [x], by simp, hop, by simp, ?_⟩
        exact List.forall_mem_append.mpr ⟨hmarkers, List.forall_mem_singleton.mpr hline⟩

theorem merge?_unmarked {c : BlockCode} : (c.block f).unmarked.merge? =
    (c.body.filter (!·.op.isDebugLine)).getLast?.filter (·.op.isMerge) := by
  refine merge?_of_concat (i := c.terminator) ?_
  simp [Block.unmarked, BlockCode.block, not_isDebugLine_of_isTerminator c.closes]

/-- No merge instruction comes to be seen or is lost. -/
theorem merge?_unmarked_of_not_hides {blocks : List Block} (hcut : cutBlocks f = .ok blocks) (apart : ¬f.HidesMerge) :
    ∀ b ∈ blocks, b.unmarked.merge? = b.merge? := by
  intro b hb
  obtain ⟨groups, trailing, hparses, rfl⟩ := exists_parses hcut
  obtain ⟨x, hx, rfl⟩ := List.mem_map.mp hb
  rw [merge?_unmarked, merge?_code]
  refine (getLast?_unmarked x.code.body).resolve_right ?_
  intro ⟨before, merge, markers, hbody, hop, hne, hmarkers⟩
  obtain ⟨groups₁, groups₂, rfl⟩ := List.append_of_mem hx
  refine apart ⟨groups₁.flatMap Group.instructions ++ (x.markers ++ x.code.label :: before), merge, markers,
    x.code.terminator, groups₂.flatMap Group.instructions ++ trailing, ?_, hop, hne, hmarkers, x.code.closes⟩
  simp [hparses.stream, Group.instructions, BlockCode.instructions, hbody]

theorem resolve_unmarked (f : Function) (blocks : List Block) :
    resolve f.unmarked (blocks.map Block.unmarked) = resolve f blocks := by
  funext label position
  simp only [resolve, List.findIdx?_map, List.map_map]
  rfl

theorem targetsOf_unmarked (blocks : List Block) (i : Instruction) :
    targetsOf f.unmarked (blocks.map Block.unmarked) i = targetsOf f blocks i := by
  unfold targetsOf
  rw [resolve_unmarked]

theorem checkMerge_unmarked {blocks : List Block} {b : Block} (h : b.unmarked.merge? = b.merge?) :
    checkMerge f.unmarked (blocks.map Block.unmarked) b.unmarked = checkMerge f blocks b := by
  unfold checkMerge
  rw [h, resolve_unmarked]

theorem linkBlocks_unmarked {blocks : List Block} (hends : ∀ b ∈ blocks, Terminated b)
    (hmerges : ∀ b ∈ blocks, b.unmarked.merge? = b.merge?) :
    linkBlocks f.unmarked (blocks.map Block.unmarked) = linkBlocks f blocks := by
  unfold linkBlocks
  rw [List.mapM_map]
  refine mapM_congr fun b hb => ?_
  obtain ⟨i, hi, -⟩ := hends b hb
  rw [Function.comp_apply, linkBlock, linkBlock, checkMerge_unmarked (hmerges b hb), terminator?_unmarked (hends b hb), hi]
  simp only [targetsOf_unmarked]

/-- A merge instruction that is seen among line markers is seen without them. -/
theorem merge?_unmarked_of_some {c : BlockCode} {m : Instruction} (h : (c.block f).merge? = some m) :
    (c.block f).unmarked.merge? = some m := by
  rw [merge?_code, Option.filter_eq_some_iff] at h
  obtain ⟨hlast, hop⟩ := h
  obtain ⟨front, hfront⟩ := List.getLast?_eq_some_iff.mp hlast
  rw [merge?_unmarked, hfront]
  simp [not_isDebugLine_of_isMerge hop, hop]

/-- The terminator of the block names the targets. -/
def Names (f : Function) (blocks : List Block) (b : Block) (targets : List BlockId) : Prop :=
  ∃ i, b.terminator? = some i ∧ targetsOf f blocks i = .ok targets

theorem Names.rightUnique {blocks : List Block} : Relator.RightUnique (Names f blocks) := by
  rintro b targets targets' ⟨i, hi, htargets⟩ ⟨i', hi', htargets'⟩
  obtain rfl := Option.some.inj (hi.symm.trans hi')
  exact Except.ok.inj (htargets.symm.trans htargets')

theorem Names.of_unmarked {blocks : List Block} {b : Block} {targets : List BlockId} (hends : Terminated b)
    (h : Names f.unmarked (blocks.map Block.unmarked) b.unmarked targets) : Names f blocks b targets := by
  obtain ⟨i, hi, htargets⟩ := h
  exact ⟨i, terminator?_unmarked hends ▸ hi, targetsOf_unmarked blocks i ▸ htargets⟩

theorem names_of_linkBlocks {blocks : List Block} {links : List (List BlockId)} (h : linkBlocks f blocks = .ok links) :
    List.Forall₂ (Names f blocks) blocks links :=
  (forall₂_of_mapM_ok h).imp fun _ _ hb => (linkBlock_eq_ok hb).2

/-- Links are taken from the terminators, which line markers do not change. -/
theorem links_unmarked {blocks : List Block} {links links' : List (List BlockId)} (hends : ∀ b ∈ blocks, Terminated b)
    (hlinks : linkBlocks f blocks = .ok links)
    (hlinks' : linkBlocks f.unmarked (blocks.map Block.unmarked) = .ok links') : links' = links := by
  obtain ⟨hlength, hnames⟩ := List.forall₂_iff_get.mp (List.forall₂_map_left_iff.mp (names_of_linkBlocks hlinks'))
  refine List.right_unique_forall₂' Names.rightUnique (List.forall₂_iff_get.mpr ⟨hlength, fun k hk hk' => ?_⟩)
    (names_of_linkBlocks hlinks)
  exact .of_unmarked (hends _ (List.get_mem blocks ⟨k, hk⟩)) (hnames k hk hk')

end

/-! ### Graphs and trees -/

section
variable {f : Function} {g g' : FlowGraph}

/-- Where no merge instruction is hidden, the graph of the function without line markers is that of the function,
without line markers, and there is none for the same reason. -/
theorem build_unmarked (apart : ¬f.HidesMerge) : build f.unmarked = (build f).map FlowGraph.unmarked := by
  rw [build_eq_bind, build_eq_bind, cutBlocks_unmarked]
  cases hcut : cutBlocks f with
  | error e => rfl
  | ok blocks =>
    have hlinks : linkBlocks f.unmarked (blocks.map Block.unmarked) = linkBlocks f blocks :=
      linkBlocks_unmarked (cutBlocks_ok hcut).2 (merge?_unmarked_of_not_hides hcut apart)
    simp only [Except.map, Except.mapError, bind, Except.bind, hlinks]
    cases linkBlocks f blocks with
    | error e => rfl
    | ok links => simp [ofLinks, ofTables, FlowGraph.unmarked]

theorem glance_unmarked (accepted : build f = .ok g) (apart : ¬f.HidesMerge) : g.unmarked.glance = g.glance := by
  obtain ⟨blocks, links, hcut, -, rfl⟩ := build_eq_ok accepted
  have hsame : ∀ b ∈ blocks, b.unmarked.glance = b.glance := by
    intro b hb
    unfold Block.glance
    rw [merge?_unmarked_of_not_hides hcut apart b hb, terminator?_unmarked ((cutBlocks_ok hcut).2 b hb)]
    rfl
  have hblocks := List.map_congr_left hsame
  simp only [FlowGraph.glance, FlowGraph.unmarked, ofLinks, ofTables, Array.map_map]
  simpa [Function.comp_def] using hblocks

end

theorem Child.renumber_id (c : Child) : c.renumber id = c := by
  cases c <;> rfl

theorem Tree.format_of_blockName {g g' : FlowGraph} (h : g'.blockName = g.blockName) (nodes : Array Node) (root : NodeId)
    (places : Placement) : (Tree.mk g' nodes root places).format = (Tree.mk g nodes root places).format := by
  have hchildren : ∀ children : List Child, children.map (Child.renumber id) = children := fun children =>
    (List.map_congr_left fun c _ => c.renumber_id).trans (List.map_id children)
  let t : Tree := ⟨g, nodes, root, places⟩
  let t' : Tree := ⟨g', nodes, root, places⟩
  have hnodes : ∀ node, (t'.node? node).map (fun n => (n.kind, n.children)) =
      (t.node? node).map fun n => (n.kind, n.children.map (Child.renumber id)) := fun node => by
    simp only [hchildren]
    rfl
  exact Tree.format_regionOf (congrFun h) hnodes nodes.size (.node root)

/-- Graphs that look the same are structured in the same way. -/
theorem Tree.build_of_glance {g g' : FlowGraph} (hg : g.Linked) (h : g'.glance = g.glance) :
    (∃ t t', (Tree.build g (.none g)).1 = .ok t ∧ (Tree.build g' (.none g')).1 = .ok t' ∧ t.format = t'.format) ∨
      ∃ r, (Tree.build g (.none g)).1 = .error (.rejected r) ∧ (Tree.build g' (.none g')).1 = .error (.rejected r) := by
  have hroot : Structuring.root g' = Structuring.root g := by
    rw [← Structuring.root_glance g', h, Structuring.root_glance]
  have hsize : g'.size = g.size := by rw [← g'.size_glance, h, g.size_glance]
  have hname : g'.blockName = g.blockName := by rw [← g'.blockName_glance, h, g.blockName_glance]
  have hblank : blank g' (.none g') = blank g (.none g) := by simp [blank, Placement.none, hsize]
  have hfault := build_ne_fault hg
  rw [build_fst] at hfault
  rw [build_fst, build_fst, hroot, hblank]
  cases hrun : Structuring.root g (blank g (.none g)) with
  | ok root d => exact Or.inl ⟨_, _, rfl, rfl, (format_of_blockName hname ..).symm⟩
  | error e d =>
    cases e with
    | rejected r => exact Or.inr ⟨r, rfl, rfl⟩
    | fault why =>
      rw [hrun] at hfault
      exact absurd rfl (hfault why)

/-! ### Functions -/

/-- Line markers make no difference to the function: there is a graph with and without them or there is none for the same
reason, the graphs have the same labels and successors, and both are structured into trees that are printed alike or are
rejected in the same way. -/
structure Function.Unaffected (f : Function) : Prop where
  graphs : (∃ g g', build f = .ok g ∧ build f.unmarked = .ok g') ∨
    ∃ d d', build f = .error (.rejected d) ∧ build f.unmarked = .error (.rejected d') ∧ d.code = d'.code
  labels : ∀ g g', build f = .ok g → build f.unmarked = .ok g' → g'.blocks.map (·.label) = g.blocks.map (·.label)
  successors : ∀ g g', build f = .ok g → build f.unmarked = .ok g' → ∀ b, g'.successors b = g.successors b
  trees : ∀ g g', build f = .ok g → build f.unmarked = .ok g' →
    (∃ t t', (Tree.build g (.none g)).1 = .ok t ∧ (Tree.build g' (.none g')).1 = .ok t' ∧ t.format = t'.format) ∨
      ∃ r r', (Tree.build g (.none g)).1 = .error (.rejected r) ∧
        (Tree.build g' (.none g')).1 = .error (.rejected r') ∧ r.kind = r'.kind

section
variable {f : Function} {g g' : FlowGraph}

/-- Labels and successors are the same whether or not a merge instruction is hidden. -/
theorem labels_successors_unmarked (accepted : build f = .ok g) (accepted' : build f.unmarked = .ok g') :
    g'.blocks.map (·.label) = g.blocks.map (·.label) ∧ ∀ b, g'.successors b = g.successors b := by
  obtain ⟨blocks, links, hcut, hlinks, rfl⟩ := build_eq_ok accepted
  obtain ⟨blocks', links', hcut', hlinks', rfl⟩ := build_eq_ok accepted'
  rw [cutBlocks_unmarked, hcut] at hcut'
  cases hcut'
  obtain rfl := links_unmarked (cutBlocks_ok hcut).2 hlinks hlinks'
  have hlength : blocks.length = links'.length := (linkBlocks_ok hlinks).length_eq
  refine ⟨?_, fun b => ?_⟩
  · simp only [blocks_ofLinks, List.map_toArray, List.map_map]
    rfl
  · rw [successors_ofLinks hlength, successors_ofLinks (by simpa using hlength)]

/-- A function has a graph if it has one without its line markers. -/
theorem exists_build_of_unmarked (h : ∃ g', build f.unmarked = .ok g') : ∃ g, build f = .ok g := by
  obtain ⟨g', hg'⟩ := h
  obtain ⟨blocks', links', hcut', hlinks', -⟩ := build_eq_ok hg'
  rw [cutBlocks_unmarked] at hcut'
  cases hcut : cutBlocks f with
  | error e =>
    rw [hcut] at hcut'
    cases hcut'
  | ok blocks =>
    rw [hcut] at hcut'
    cases hcut'
    obtain ⟨groups, trailing, -, rfl⟩ := exists_parses hcut
    have hlabels : ∀ blocks : List Block, (blocks.map Block.unmarked).map (·.label) = blocks.map (·.label) := by
      intro blocks
      rw [List.map_map]
      rfl
    obtain ⟨links, hlinks⟩ : ∃ links, linkBlocks f (groups.map (·.code.block f)) = .ok links := by
      refine exists_linkBlocks_iff.mpr fun b hb => ?_
      have hknown := exists_linkBlocks_iff.mp ⟨links', hlinks'⟩ b.unmarked (List.mem_map_of_mem hb)
      rw [hlabels] at hknown
      have hends := terminator?_unmarked ((cutBlocks_ok hcut).2 b hb)
      obtain ⟨x, -, rfl⟩ := List.mem_map.mp hb
      exact ⟨hends ▸ hknown.terminator, fun m hm => hknown.merge m (merge?_unmarked_of_some hm)⟩
    exact ⟨_, build_of_links hcut hlinks⟩

theorem unaffected_of_not_hides (apart : ¬f.HidesMerge) : f.Unaffected := by
  have hbuild := build_unmarked apart
  refine ⟨?_, fun g g' hg hg' => (labels_successors_unmarked hg hg').1,
    fun g g' hg hg' => (labels_successors_unmarked hg hg').2, fun g g' hg hg' => ?_⟩
  · cases hresult : build f with
    | ok g => exact Or.inl ⟨g, g.unmarked, rfl, by rw [hbuild, hresult]; rfl⟩
    | error halt =>
      obtain ⟨d, rfl, -⟩ := build_error hresult
      exact Or.inr ⟨d, d, rfl, by rw [hbuild, hresult]; rfl, rfl⟩
  · rw [hbuild, hg] at hg'
    cases hg'
    rcases Tree.build_of_glance (build_linked hg) (glance_unmarked hg apart) with htrees | ⟨r, hrejected, hrejected'⟩
    · exact Or.inl htrees
    · exact Or.inr ⟨r, r, hrejected, hrejected', rfl⟩

end

/-- Line markers make no difference, unless they stand between a merge instruction and the terminator behind it. Even
then the labels and the successors of blocks are the same, and no graph is lost. -/
theorem line_markers_irrelevant (f : Function) :
    (¬f.HidesMerge → f.Unaffected) ∧
    (∀ g g', build f = .ok g → build f.unmarked = .ok g' →
      g'.blocks.map (·.label) = g.blocks.map (·.label) ∧ ∀ b, g'.successors b = g.successors b) ∧
    ((∃ g', build f.unmarked = .ok g') → ∃ g, build f = .ok g) :=
  ⟨unaffected_of_not_hides, fun _ _ => labels_successors_unmarked, exists_build_of_unmarked⟩

/-- Behind a hidden merge instruction stands a line marker. -/
theorem Function.HidesMerge.exists_marker {f : Function} (h : f.HidesMerge) : ∃ n < f.instructions.length,
    f.instructions[n]?.any (·.op.isMerge) = true ∧ f.instructions[n + 1]?.any (·.op.isDebugLine) = true := by
  obtain ⟨before, merge, markers, terminator, after, hstream, hop, hne, hmarkers, -⟩ := h
  obtain ⟨i, rest, rfl⟩ := List.exists_cons_of_ne_nil hne
  refine ⟨before.length, by simp [hstream], by simp [hstream, hop], ?_⟩
  simpa [hstream, List.getElem?_append_right] using hmarkers i List.mem_cons_self

/-- A conditional branch with line markers at all places but one. -/
def linedSample : Function where
  name := "lined"
  instructions := [
    { op := .line }, { op := .label, result := 1 }, { op := .line }, { op := .selectionMerge, operands := [.ofId 3] },
    { op := .branchConditional, operands := [.ofId 9, .ofId 2, .ofId 3] },
    { op := .noLine }, { op := .line }, { op := .label, result := 2 }, { op := .line },
    { op := .branch, operands := [.ofId 3] }, { op := .label, result := 3 }, { op := .noLine }, { op := .return },
    { op := .noLine }]

theorem line_markers_irrelevant_lined : ¬linedSample.HidesMerge ∧ linedSample.Unaffected ∧
    linedSample.unmarked.instructions.length = 7 ∧ ∃ g t, build linedSample = .ok g ∧
      (Tree.build g (.none g)).1 = .ok t ∧ t.nodes.size = 3 := by
  have apart : ¬linedSample.HidesMerge := fun h => absurd h.exists_marker (by decide)
  have hchecked : hasTree linedSample (fun _ t => t.nodes.size = 3) = true := by decide +kernel
  obtain ⟨g, t, hbuild, htree, htest⟩ := exists_of_hasTree hchecked
  exact ⟨apart, (line_markers_irrelevant linedSample).1 apart, by decide, g, t, hbuild, htree, of_decide_eq_true htest⟩

/-- A conditional branch with a line marker behind its merge instruction. -/
def hiddenMergeSample : Function where
  name := "hidden_merge"
  instructions := [
    { op := .label, result := 1 }, { op := .selectionMerge, operands := [.ofId 4] }, { op := .line },
    { op := .branchConditional, operands := [.ofId 9, .ofId 2, .ofId 3] },
    { op := .label, result := 2 }, { op := .branch, operands := [.ofId 4] },
    { op := .label, result := 3 }, { op := .branch, operands := [.ofId 4] },
    { op := .label, result := 4 }, { op := .return }]

/-- The sample is rejected, and has a tree without its line marker. -/
theorem line_marker_hides_merge : ¬hiddenMergeSample.Unaffected := by
  have hchecked : hasGraph hiddenMergeSample (fun g => !(Tree.build g (.none g)).1.isOk) = true := by decide +kernel
  have hchecked' : hasTree hiddenMergeSample.unmarked (fun _ _ => true) = true := by decide +kernel
  obtain ⟨g, hbuild, hrejected⟩ := exists_of_hasGraph hchecked
  obtain ⟨g', t', hbuild', htree', -⟩ := exists_of_hasTree hchecked'
  intro h
  rcases h.trees g g' hbuild hbuild' with ⟨t, -, htree, -⟩ | ⟨-, r', -, hrejected', -⟩
  · rw [htree] at hrejected
    cases hrejected
  · rw [htree'] at hrejected'
    cases hrejected'

end FlowTree
