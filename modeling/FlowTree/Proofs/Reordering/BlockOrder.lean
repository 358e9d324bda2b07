import FlowTree.Proofs.FlowGraph.Layout
import FlowTree.Proofs.Reordering.Runs
import FlowTree.Proofs.Tree.Built
import FlowTree.Tree.Printer
import Mathlib.Logic.Equiv.Basic

/-!
The order of blocks does not matter. Two functions with the same blocks, the same one of them first, both have graphs or
both have none. The graphs have the same blocks under different numbers, so they are structured alike: into trees that
are printed alike, or not at all and for the same reason.
-/

namespace FlowTree

open FlowGraph Structuring

section
variable {α : Type} {σ : Nat → Nat}

/-- New numbers for what comes behind a first item that keeps its own. -/
def behindFirst (σ : Nat → Nat) : Nat → Nat
  | 0 => 0
  | i + 1 => σ i + 1

theorem injective_behindFirst (hσ : Function.Injective σ) : Function.Injective (behindFirst σ)
  | 0, 0, _ => rfl
  | _ + 1, _ + 1, h => congrArg (· + 1) (hσ (Nat.succ.inj h))

theorem getElem?_behindFirst {x : α} {xs ys : List α} (h : ∀ i, ys[σ i]? = xs[i]?) :
    ∀ i, (x :: ys)[behindFirst σ i]? = (x :: xs)[i]?
  | 0 => rfl
  | i + 1 => by simpa [behindFirst] using h i

theorem exists_numbers_of_perm {xs ys : List α} (h : xs.Perm ys) :
    ∃ σ : Nat → Nat, Function.Injective σ ∧ ∀ i, ys[σ i]? = xs[i]? := by
  induction h with
  | nil => exact ⟨id, Function.injective_id, fun _ => rfl⟩
  | cons x _ ih =>
    obtain ⟨σ, hσ, hitems⟩ := ih
    exact ⟨behindFirst σ, injective_behindFirst hσ, getElem?_behindFirst hitems⟩
  | swap x y rest =>
    refine ⟨Equiv.swap 0 1, Equiv.injective _, fun i => ?_⟩
    match i with
    | 0 => simp
    | 1 => simp
    | i + 2 => simp [Equiv.swap_apply_of_ne_of_ne]
  | trans _ _ ih₁ ih₂ =>
    obtain ⟨σ₁, hσ₁, hitems₁⟩ := ih₁
    obtain ⟨σ₂, hσ₂, hitems₂⟩ := ih₂
    exact ⟨σ₂ ∘ σ₁, hσ₂.comp hσ₁, fun i => (hitems₂ (σ₁ i)).trans (hitems₁ i)⟩

end

/-- Graphs with the same blocks and the same first one differ in the numbers of blocks only. -/
theorem exists_renumbers {g g' : FlowGraph} (hg : g.Linked) (hg' : g'.Linked) {first : Block} {rest rest' : List Block}
    (hblocks : g.blocks = (first :: rest).toArray) (hblocks' : g'.blocks = (first :: rest').toArray)
    (hperm : rest.Perm rest') (hnodup : ((first :: rest).map (·.label)).Nodup) : ∃ σ, Renumbers g g' σ := by
  obtain ⟨σ, hσ, hitems⟩ := exists_numbers_of_perm hperm
  have hlabels : (g.blocks.toList.map (·.label)).Nodup := by rwa [hblocks]
  have hlabels' : (g'.blocks.toList.map (·.label)).Nodup := by
    rw [hblocks']
    exact ((hperm.cons first).map (·.label)).nodup_iff.mp hnodup
  have hblock : ∀ b, g'.block? (behindFirst σ b) = g.block? b := by
    intro b
    rw [block?, block?, hblocks, hblocks', List.getElem?_toArray, List.getElem?_toArray]
    exact getElem?_behindFirst hitems b
  refine ⟨behindFirst σ, hg, hg', injective_behindFirst hσ, ?_, rfl, hblock, fun label => ?_⟩
  · simp [size, hblocks, hblocks', hperm.length_eq]
  · cases hfound : g.blockOf? label with
    | some b =>
      obtain ⟨block, hb, hlabel⟩ := (blockOf?_eq_some_iff hlabels).mp hfound
      exact (blockOf?_eq_some_iff hlabels').mpr ⟨block, (hblock b).trans hb, hlabel⟩
    | none =>
      -- A block with the label would be among those of the first graph too.
      refine Option.eq_none_iff_forall_ne_some.mpr fun b' hfound' => ?_
      obtain ⟨block, hb', hlabel⟩ := (blockOf?_eq_some_iff hlabels').mp hfound'
      have hmem : block ∈ g.blocks := by
        have hmem' := Array.mem_of_getElem? hb'
        rw [hblocks', List.mem_toArray] at hmem'
        rw [hblocks, List.mem_toArray]
        exact (hperm.cons first).mem_iff.mpr hmem'
      obtain ⟨b, hb⟩ := Array.mem_iff_getElem?.mp hmem
      rw [(blockOf?_eq_some_iff hlabels).mpr ⟨block, hb, hlabel⟩] at hfound
      cases hfound

theorem Region.formatAll_eq_intercalate (name : BlockId → String) :
    ∀ rs : List Region, formatAll name rs = ", ".intercalate (rs.map (format name))
  | [] => rfl
  | [r] => by simp [formatAll]
  | r :: next :: rs => by
    rw [formatAll, formatAll_eq_intercalate name (next :: rs)]
    · exact String.intercalate_cons_cons.symm
    · simp

theorem Tree.format_regionOf {t t' : Tree} {σ : BlockId → BlockId}
    (hname : ∀ b, t'.graph.blockName (σ b) = t.graph.blockName b)
    (hnodes : ∀ id, (t'.node? id).map (fun n => (n.kind, n.children)) =
      (t.node? id).map fun n => (n.kind, n.children.map (Child.renumber σ))) (depth : Nat) (c : Child) :
    (t'.regionOf depth (c.renumber σ)).format t'.graph.blockName = (t.regionOf depth c).format t.graph.blockName := by
  -- The numbers of nodes are the same in both trees, so only blocks are renumbered on the way down.
  induction depth generalizing c with
  | zero =>
    cases c with
    | block b => simp [regionOf, Child.renumber, Region.format, hname]
    | node id => simp [regionOf, Child.renumber, Region.format, Region.formatAll]
  | succ depth ih =>
    cases c with
    | block b => simp [regionOf, Child.renumber, Region.format, hname]
    | node id =>
      have hid := hnodes id
      rw [Child.renumber, regionOf, regionOf]
      cases hn : t.node? id with
      | none =>
        rw [hn, Option.map_none, Option.map_eq_none_iff] at hid
        simp [hid, Region.format, Region.formatAll]
      | some n =>
        rw [hn, Option.map_some, Option.map_eq_some_iff] at hid
        obtain ⟨n', hn', heq⟩ := hid
        obtain ⟨hkind, hchildren⟩ := Prod.mk.inj heq
        have htexts : ((n.children.map (Child.renumber σ)).map (t'.regionOf depth)).map (Region.format t'.graph.blockName) =
            (n.children.map (t.regionOf depth)).map (Region.format t.graph.blockName) := by
          rw [List.map_map, List.map_map, List.map_map]
          exact List.map_congr_left fun c _ => ih c
        simp only [hn', Region.format, Region.formatAll_eq_intercalate, hkind, hchildren, htexts]

theorem Tree.format_eq {t t' : Tree} {σ : BlockId → BlockId} {unvisited unvisited' : List BlockId}
    (hg : Renumbers t.graph t'.graph σ) (hdrafts : DraftsAlike σ (t.draft unvisited) (t'.draft unvisited'))
    (hroot : t.root = t'.root) : t.format = t'.format := by
  have houtline : t'.nodes.map (fun n => (n.kind, n.children)) =
      (t.nodes.map fun n => (n.kind, n.children)).map fun n => (n.1, n.2.map (Child.renumber σ)) := hdrafts.outline_eq
  have hsize : t'.nodes.size = t.nodes.size := by simpa using congrArg Array.size houtline
  have hnodes : ∀ id, (t'.node? id).map (fun n => (n.kind, n.children)) =
      (t.node? id).map fun n => (n.kind, n.children.map (Child.renumber σ)) := by
    intro id
    rw [node?, node?, ← Array.getElem?_map, houtline]
    simp [Function.comp_def]
  rw [format, format, region, region, hsize, ← hroot]
  exact (format_regionOf hg.blockName_eq hnodes t.nodes.size (.node t.root)).symm

theorem Tree.build_fst (g : FlowGraph) (before : Placement) : (Tree.build g before).1 =
    match Structuring.root g (blank g before) with
    | .ok root d => .ok ⟨g, d.nodes, root, d.placement⟩
    | .error h _ => .error h := by
  unfold Tree.build blank
  split <;> rename_i hroot <;> simp only [hroot]

theorem Tree.build_ne_fault {g : FlowGraph} (hg : g.Linked) (f : Fault) :
    (Tree.build g (.none g)).1 ≠ .error (.fault f) := by
  intro h
  rcases build_error hg h with ⟨r, hr⟩ | ⟨b, place, hplace⟩
  · cases hr
  · rw [place?_none] at hplace
    cases hplace

theorem Tree.blank_alike {g g' : FlowGraph} {σ : BlockId → BlockId} (hg : Renumbers g g' σ) (before before' : Placement) :
    DraftsAlike σ (blank g before) (blank g' before') where
  outline_eq := by simp [Draft.outline, blank]
  nodup := List.nodup_range
  nodup' := List.nodup_range
  unvisited_iff b := by simp [blank, hg.lt_iff]

/-- Graphs that differ in the numbers of blocks only are structured alike. -/
theorem Tree.build_alike {g g' : FlowGraph} {σ : BlockId → BlockId} (hg : Renumbers g g' σ) :
    (∃ t t', (Tree.build g (.none g)).1 = .ok t ∧ (Tree.build g' (.none g')).1 = .ok t' ∧ t.format = t'.format) ∨
      ∃ r r', (Tree.build g (.none g)).1 = .error (.rejected r) ∧
        (Tree.build g' (.none g')).1 = .error (.rejected r') ∧ r.Alike r' := by
  have hends := root_agree hg _ _ (blank_alike hg (.none g) (.none g'))
  have hsource := build_ne_fault hg.source
  have htarget := build_ne_fault hg.target
  rw [build_fst] at hsource htarget
  rw [build_fst, build_fst]
  generalize Structuring.root g (blank g (.none g)) = end₁ at hends hsource ⊢
  generalize Structuring.root g' (blank g' (.none g')) = end₂ at hends htarget ⊢
  cases hends with
  | ok hroot drafts => exact Or.inl ⟨_, _, rfl, rfl, format_eq hg drafts hroot⟩
  | rejected h => exact Or.inr ⟨_, _, rfl, rfl, h⟩
  | faultLeft => exact absurd rfl (hsource _)
  | faultRight => exact absurd rfl (htarget _)

/-! ### The order of blocks -/

/-- Blocks may stand in any order behind the first one. Either both functions have graphs or none has, and the graphs are
structured into trees that are printed alike, or are both rejected for the same reason. -/
theorem block_order_irrelevant {f f' : Function} {codes codes' : List BlockCode}
    (laidOut : f.instructions = codes.flatMap BlockCode.instructions)
    (reordered : f' = { f with instructions := codes'.flatMap BlockCode.instructions })
    (same : codes.Perm codes') (first : codes.head? = codes'.head?) :
    ((∃ g, FlowGraph.build f = .ok g) ↔ ∃ g', FlowGraph.build f' = .ok g') ∧
      ∀ g g', FlowGraph.build f = .ok g → FlowGraph.build f' = .ok g' →
        (∃ t t', (Tree.build g (.none g)).1 = .ok t ∧ (Tree.build g' (.none g')).1 = .ok t' ∧ t.format = t'.format) ∨
        ∃ r r', (Tree.build g (.none g)).1 = .error (.rejected r) ∧
          (Tree.build g' (.none g')).1 = .error (.rejected r') ∧ r.Alike r' := by
  subst reordered
  have hbuild := BlockCode.exists_build_iff laidOut
  rw [hbuild, BlockCode.exists_build_iff rfl]
  refine ⟨⟨fun h => h.perm same, fun h => h.perm same.symm⟩, fun g g' hg hg' => ?_⟩
  have hdistinct := (hbuild.mp ⟨g, hg⟩).distinct
  have hblocks := BlockCode.blocks_eq_of_build laidOut hg
  have hblocks' := BlockCode.blocks_eq_of_build rfl hg'
  cases codes with
  | nil => exact absurd rfl (hbuild.mp ⟨g, hg⟩).nonempty
  | cons c rest =>
    cases codes' with
    | nil => cases first
    | cons c' rest' =>
      obtain rfl : c = c' := Option.some.inj first
      obtain ⟨σ, hσ⟩ := exists_renumbers (build_linked hg) (build_linked hg') hblocks hblocks'
        ((List.perm_cons c).mp same |>.map _) (by simpa [BlockCode.block, Function.comp_def] using hdistinct)
      exact Tree.build_alike hσ

/-- The block of a label that ends in an instruction with no result. -/
def BlockCode.labelled (label : Id) (body : List Instruction) (op : Opcode) (operands : List Operand)
    (runs : ∀ i ∈ body, i.op.isTerminator = false := by decide) (closes : op.isTerminator = true := by rfl) :
    BlockCode where
  label := { op := .label, result := label }
  body
  terminator := { op, operands }
  runs
  closes

/-- The blocks of the loop. -/
def loopBlocks : List BlockCode := [
  .labelled 1 [] .branch [.ofId 2],
  .labelled 2 [{ op := .loopMerge, operands := [.ofId 4, .ofId 2] }] .branchConditional [.ofId 9, .ofId 3, .ofId 4],
  .labelled 3 [] .branch [.ofId 2],
  .labelled 4 [] .return [],
  .labelled 5 [] .branch [.ofId 4]]

/-- The loop with the blocks behind the first one from the last to the second. -/
def loopReversed : Function :=
  { loopSample with instructions := (loopBlocks.take 1 ++ (loopBlocks.drop 1).reverse).flatMap BlockCode.instructions }

/-- Both orders of the loop have trees, which are printed alike. -/
theorem block_order_irrelevant_loop : ∃ g g' t t', FlowGraph.build loopSample = .ok g ∧
    FlowGraph.build loopReversed = .ok g' ∧ (Tree.build g (.none g)).1 = .ok t ∧ (Tree.build g' (.none g')).1 = .ok t' ∧
      t.format = t'.format := by
  obtain ⟨g, t, hg, ht, -⟩ := loopSample_built
  have laidOut : loopSample.instructions = loopBlocks.flatMap BlockCode.instructions := rfl
  have reordered : loopReversed = { loopSample with
      instructions := (loopBlocks.take 1 ++ (loopBlocks.drop 1).reverse).flatMap BlockCode.instructions } := rfl
  have same : loopBlocks.Perm (loopBlocks.take 1 ++ (loopBlocks.drop 1).reverse) :=
    (List.reverse_perm (loopBlocks.drop 1)).symm.cons _
  obtain ⟨hgraphs, htrees⟩ := block_order_irrelevant laidOut reordered same rfl
  obtain ⟨g', hg'⟩ := hgraphs.mp ⟨g, hg⟩
  rcases htrees g g' hg hg' with ⟨t, t', ht, ht', hformat⟩ | ⟨r, r', hr, -⟩
  · exact ⟨g, g', t, t', hg, hg', ht, ht', hformat⟩
  · rw [ht] at hr
    cases hr

end FlowTree
