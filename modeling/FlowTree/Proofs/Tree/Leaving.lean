import FlowTree.Proofs.Tree.LooseEnds

/-!
Blocks that leave the function. What a span records of them is handed from construct to construct up to the root, and
nothing is lost or added on the way: the root lists the blocks in reach that leave the function, each once. A header
is recorded by the construct that it opens. Selections branch, so only the header of a loop could leave the function,
and it is not recorded then.
-/

namespace FlowTree

open Sketch Structuring

/-- The block leaves the function and is no header of a loop. -/
def FlowGraph.departs (g : FlowGraph) (b : BlockId) : Bool :=
  (g.block? b).any fun block => block.isLeaving && !block.merge?.any (·.op = .loopMerge)

theorem FlowGraph.departs_iff {g : FlowGraph} {b : BlockId} : g.departs b = true ↔
    ∃ block, g.block? b = some block ∧ block.isLeaving = true ∧
      ∀ merge, block.merge? = some merge → merge.op ≠ .loopMerge := by
  simp [departs, Option.any_eq_true, Option.any_eq_false]

namespace Exits

variable {β ε : Type} [DecidableEq β] [DecidableEq ε]

@[simp] theorem returnOrKill_addAll (x : Exits β ε) (t : β) (es : List ε) : (x.addAll t es).returnOrKill = x.returnOrKill :=
  List.foldlRecOn (motive := fun (y : Exits β ε) => y.returnOrKill = x.returnOrKill) es _ rfl fun _ hy _ _ => hy

@[simp] theorem returnOrKill_merge (x y : Exits β ε) : (x.merge y).returnOrKill = x.returnOrKill ++ y.returnOrKill := by
  have h := List.foldlRecOn (motive := fun z => z.returnOrKill = x.returnOrKill) y.targets
    (fun x group => x.addAll group.1 group.2) rfl fun z hz group _ => (returnOrKill_addAll z group.1 group.2).trans hz
  exact congrArg (· ++ y.returnOrKill) h

end Exits

theorem returnOrKill_foldl_merge {α : Type} (f : α → BlockExits) (xs : List α) (x : BlockExits) :
    (xs.foldl (fun x a => x.merge (f a)) x).returnOrKill = x.returnOrKill ++ xs.flatMap fun a => (f a).returnOrKill := by
  induction xs generalizing x with
  | nil => simp
  | cons a xs ih => simp [ih]

theorem returnOrKill_plainExits (g : FlowGraph) (b : BlockId) : (plainExits g b).returnOrKill = [] :=
  List.foldlRecOn (motive := fun (x : BlockExits) => x.returnOrKill = []) (g.transfers b) _ rfl fun _ hx _ _ => hx

theorem returnOrKill_directExits (g : FlowGraph) (b : BlockId) (targets : List BlockId) :
    (directExits g b targets).returnOrKill = [] :=
  List.foldlRecOn (motive := fun (x : BlockExits) => x.returnOrKill = []) targets _ rfl fun x hx t _ => by simpa using hx

theorem ArmSketch.returnOrKill_exits (a : ArmSketch) : a.exits.returnOrKill = a.loose.returnOrKill := by
  unfold ArmSketch.exits
  split <;> rfl

section
variable {g : FlowGraph} {b : BlockId} {block : Block} {i : Instruction}

theorem departs_loop {labels : Id × Id} (found : g.block? b = some block) (merges : block.merge? = some i)
    (hlabels : i.loopMerge? = some labels) : g.departs b = false := by
  simp [FlowGraph.departs, found, merges, FlowGraph.op_of_loopMerge? hlabels]

theorem departs_branch (found : g.block? b = some block) (ends : block.terminator? = some i)
    (hop : i.op.isReturnOrKill = false) : g.departs b = false := by
  simp [FlowGraph.departs, found, Block.isLeaving, ends, hop]

end

/-! ### Spans -/

/-- The loose ends list those of the blocks that leave the function. -/
def Departs (g : FlowGraph) (loose : BlockExits) (blocks : List BlockId) : Prop :=
  loose.returnOrKill.Perm (blocks.filter g.departs)

section
variable {g : FlowGraph} {R : SpanRelation} {exits : List BlockId} {b : BlockId} {loose : BlockExits}

def SpanDeparts (g : FlowGraph) (R : SpanRelation) : Prop :=
  ∀ ⦃exits start parts loose⦄, R exits start parts loose → Departs g loose (blocksOf parts)

theorem Departs.remove {blocks : List BlockId} (h : Departs g loose blocks) (t : BlockId) :
    Departs g (loose.remove t) blocks := h

theorem Departs.kept {blocks : List BlockId} (h : Departs g loose blocks) (exits : List BlockId) :
    Departs g (kept exits loose) blocks := h

theorem Departs.header {blocks : List BlockId} (h : Departs g loose blocks) (hb : g.departs b = false) :
    Departs g loose (b :: blocks) := by
  unfold Departs
  rwa [List.filter_cons_of_neg (by simp [hb])]

theorem Departs.merge {x y : BlockExits} {xs ys : List BlockId} (hx : Departs g x xs) (hy : Departs g y ys) :
    Departs g (x.merge y) (xs ++ ys) := by
  unfold Departs
  rw [Exits.returnOrKill_merge, List.filter_append]
  exact hx.append hy

theorem Enters.departs (hD : SpanDeparts g R) {start : BlockId} {sources : List EdgeId} {parts : List Sketch}
    (h : Enters R exits start sources parts loose) : Departs g loose (blocksOf parts) := by
  cases h with
  | stop => simp [Departs]
  | go _ hrun => exact hD hrun

theorem Continues.departs (hD : SpanDeparts g R) {c : BlockId} {body : BlockExits} {blocks : List BlockId}
    {parts : List Sketch} (h : Continues R exits c body parts loose) (hbody : Departs g body blocks) :
    Departs g loose (blocks ++ blocksOf parts) := by
  cases h with
  | absent => simpa using hbody
  | present _ _ hrun => exact (hbody.remove c).merge (hD hrun)

/-- The spans that a header branches to list what each of them lists. -/
theorem departs_mergeAll {α : Type} {start : α → BlockId} {sources : α → List EdgeId} {branches : List α}
    {spans : List SpanSketch} (hD : SpanDeparts g R)
    (h : List.Forall₂ (fun a span => Enters R exits (start a) (sources a) span.1 span.2) branches spans) :
    Departs g (mergeAll {} spans) (blocksOf (spans.flatMap (·.1))) := by
  have hfilter : (blocksOf (spans.flatMap (·.1))).filter g.departs =
      spans.flatMap fun span => (blocksOf span.1).filter g.departs := by
    simp [blocksOf_eq_flatMap, List.flatMap_assoc, List.filter_flatMap]
  unfold Departs mergeAll
  rw [returnOrKill_foldl_merge, hfilter]
  refine List.Perm.flatMap_left spans fun span hspan => ?_
  obtain ⟨_, -, enters⟩ := exists_of_mem_right h hspan
  exact enters.departs hD

/-- The cases of a switch are listed in the order of the targets and stand in the order in which they fall through. -/
theorem departs_switchExits {targets : List BlockId} {arms ordered : List ArmSketch} (same : ordered.Perm arms)
    (h : ∀ a ∈ arms, Departs g a.loose (blocksOf a.parts)) :
    Departs g (switchExits g b targets exits arms) (blocksOf (ordered.map ArmSketch.sketch)) := by
  have hfilter : (blocksOf (ordered.map ArmSketch.sketch)).filter g.departs =
      ordered.flatMap fun a => (blocksOf a.parts).filter g.departs := by
    simp [blocksOf_eq_flatMap, List.flatMap_map, List.filter_flatMap, ArmSketch.sketch]
  have hlisted : (switchExits g b targets exits arms).returnOrKill = arms.flatMap fun a => a.loose.returnOrKill := by
    unfold switchExits
    rw [returnOrKill_foldl_merge, returnOrKill_directExits]
    simp [ArmSketch.returnOrKill_exits]
  unfold Departs
  rw [hlisted, hfilter]
  exact (List.Perm.flatMap_left arms h).trans (same.symm.flatMap_right _)

theorem Constructs.departs (hD : SpanDeparts g R) {sketch : Sketch} (h : Constructs g R exits b sketch loose) :
    Departs g loose sketch.blocks := by
  cases h with
  | leaving found plain leaves =>
    have hb : g.departs b = true := FlowGraph.departs_iff.mpr ⟨_, found, leaves, by simp [plain]⟩
    simp [Departs, hb]
  | plain found _ stays =>
    have hb : g.departs b = false := by simp [FlowGraph.departs, found, stays]
    simp [Departs, hb, returnOrKill_plainExits]
  | loop found merges labels _ _ body rest =>
    have hparts := rest.departs hD (departs_mergeAll hD body)
    simpa using (hparts.remove b).header (departs_loop found merges labels)
  | ifThen found _ _ _ ends labels _ arms =>
    have hb : g.departs b = false := departs_branch found ends (by rw [FlowGraph.op_of_conditionalTargets? labels]; rfl)
    simpa [blocksOf_armParts] using (departs_mergeAll hD arms).header hb
  | switch found _ _ _ ends labels _ _ _ parsed same _ =>
    have hb : g.departs b = false := departs_branch found ends (by rw [FlowGraph.op_of_switchCases? labels]; rfl)
    rw [blocks_node, blocksOf_cons]
    refine (departs_switchExits same fun a ha => ?_).header hb
    obtain ⟨_, -, arm⟩ := exists_of_mem_right parsed ha
    exact hD arm.span

end

/-- Spans list the blocks in them that leave the function. -/
theorem Spans.departs (g : FlowGraph) (budget : Nat) : SpanDeparts g (Spans g budget) := by
  refine Spans.induction (fun ih hchild _ => ?_) (fun ih hchild _ hrest => ?_) budget
  · simpa using (hchild.departs ih).kept _
  · exact ((hchild.departs ih).kept _).merge (ih hrest)

/-! ### Trees -/

theorem Tree.Built.departs {g : FlowGraph} {before : Placement} {t : Tree} {sketch : Sketch} {unvisited : List BlockId}
    (h : Tree.Built g before t sketch unvisited) :
    ∃ n, t.node? t.root = some n ∧ Departs g n.exits sketch.blocks := by
  obtain ⟨parts, loose, hspan, -, rfl⟩ := h.rooted
  obtain ⟨n, _, found, heq, -⟩ := Tree.children_of_draws h.draws
  injection heq with _ hexits
  refine ⟨n, found, ?_⟩
  rw [← hexits, blocks_node]
  exact Spans.departs g _ hspan

/-- The root of a tree lists the blocks in reach that leave the function, each once, other than headers of loops. -/
theorem root_lists_leaving {f : Function} {g : FlowGraph} {before : Placement} {t : Tree}
    (accepted : FlowGraph.build f = .ok g) (structured : (Tree.build g before).1 = .ok t) :
    ∃ n, t.node? t.root = some n ∧ n.exits.returnOrKill.Nodup ∧ ∀ b, b ∈ n.exits.returnOrKill ↔
      g.Reached b ∧ ∃ block, g.block? b = some block ∧ block.isLeaving = true ∧
        ∀ merge, block.merge? = some merge → merge.op ≠ .loopMerge := by
  have hg := FlowGraph.build_linked accepted
  obtain ⟨sketch, unvisited, h⟩ := Tree.build_ok hg structured
  obtain ⟨n, found, hdeparts⟩ := h.departs
  refine ⟨n, found, hdeparts.nodup_iff.mpr (h.nodup.filter _), fun b => ?_⟩
  rw [hdeparts.mem_iff, List.mem_filter, h.mem_blocks_iff hg, FlowGraph.departs_iff]

/-- A loop whose header returns, and a block behind it that returns. -/
def returningHeaderSample : Function where
  name := "returning_header"
  instructions := [
    { op := .label, result := 1 }, { op := .selectionMerge, operands := [.ofId 3] },
    { op := .branchConditional, operands := [.ofId 9, .ofId 2, .ofId 3] },
    { op := .label, result := 2 }, { op := .loopMerge, operands := [.ofId 3, .ofId 2] }, { op := .return },
    { op := .label, result := 3 }, { op := .return }]

/-- The sample has a tree whose root lists the last block but not the header of the loop. -/
theorem returningHeaderSample_built : ∃ g t n block, FlowGraph.build returningHeaderSample = .ok g ∧
    (Tree.build g (.none g)).1 = .ok t ∧ t.node? t.root = some n ∧ 1 ∈ g.successors 0 ∧ g.block? 1 = some block ∧
      block.isLeaving = true ∧ n.exits.returnOrKill = [2] := by
  have hchecked : hasTree returningHeaderSample (fun g t => ((t.node? t.root).any fun n =>
      n.exits.returnOrKill = [2] ∧ 1 ∈ g.successors 0) && (g.block? 1).any (·.isLeaving)) = true := by decide +kernel
  obtain ⟨g, t, hbuild, htree, htest⟩ := exists_of_hasTree hchecked
  obtain ⟨htestRoot, htestBlock⟩ := Bool.and_eq_true_iff.mp htest
  obtain ⟨n, found, hn⟩ := (Option.any_eq_true _ _).mp htestRoot
  obtain ⟨block, foundBlock, hleaving⟩ := (Option.any_eq_true _ _).mp htestBlock
  obtain ⟨hlisted, hedge⟩ := of_decide_eq_true hn
  exact ⟨g, t, n, block, hbuild, htree, found, hedge, foundBlock, hleaving, hlisted⟩

theorem root_lists_leaving_returningHeader : ∃ g t n, FlowGraph.build returningHeaderSample = .ok g ∧
    (Tree.build g (.none g)).1 = .ok t ∧ t.node? t.root = some n ∧ n.exits.returnOrKill = [2] ∧ g.Reached 2 ∧
      ∃ block, g.block? 2 = some block ∧ block.isLeaving = true := by
  obtain ⟨g, t, n, -, hbuild, htree, found, -, -, -, hlisted⟩ := returningHeaderSample_built
  obtain ⟨n', found', -, hmem⟩ := root_lists_leaving hbuild htree
  obtain rfl : n = n' := Option.some.inj (found.symm.trans found')
  obtain ⟨hreached, block, foundBlock, hleaving, -⟩ := (hmem 2).mp (by simp [hlisted])
  exact ⟨g, t, n, hbuild, htree, found, hlisted, hreached, block, foundBlock, hleaving⟩

/-- The header of the loop is in reach and leaves the function, but the root does not list it. -/
theorem leaving_header_unlisted : ∃ g t n block, FlowGraph.build returningHeaderSample = .ok g ∧
    (Tree.build g (.none g)).1 = .ok t ∧ t.node? t.root = some n ∧ g.Reached 1 ∧ g.block? 1 = some block ∧
      block.isLeaving = true ∧ 1 ∉ n.exits.returnOrKill := by
  obtain ⟨g, t, n, block, hbuild, htree, found, hedge, foundBlock, hleaving, hlisted⟩ := returningHeaderSample_built
  exact ⟨g, t, n, block, hbuild, htree, found, FlowGraph.Leads.tail .refl hedge, foundBlock, hleaving, by simp [hlisted]⟩

end FlowTree
