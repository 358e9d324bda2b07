import FlowTree.Proofs.Tree.Built

/-!
Walking through a built tree. A walk hands the pre-order of a region to its consumer, item by item, until the consumer
stops (`feed`); one that takes everything it is handed takes the blocks of the region in order. Whatever is put together
from the blocks of a region, for a built tree it is the same as for its sketch: children have smaller numbers than the
node they are in, so there are enough nodes to look at every depth of nesting.
-/

namespace FlowTree

open Sketch Structuring

section Folds
variable {α : Type} (block : BlockId → α) (node : Kind → List α → α)

namespace Region

mutual

/-- Put a value together from those of the blocks of a region. -/
def fold : Region → α
  | .block b => block b
  | .node _ kind _ _ children => node kind (foldAll children)

/-- The values of regions. -/
def foldAll : List Region → List α
  | [] => []
  | r :: rs => r.fold :: foldAll rs

end

theorem foldAll_eq_map (rs : List Region) : foldAll block node rs = rs.map (fold block node) := by
  induction rs with
  | nil => rfl
  | cons r rs ih => simp [foldAll, ih]

end Region

namespace Sketch

mutual

/-- Put a value together from those of the blocks of a sketch. -/
def fold : Sketch → α
  | .block b => block b
  | .node kind _ parts => node kind (foldAll parts)

/-- The values of sketches. -/
def foldAll : List Sketch → List α
  | [] => []
  | s :: rest => s.fold :: foldAll rest

end

theorem foldAll_eq_map (parts : List Sketch) : foldAll block node parts = parts.map (fold block node) := by
  induction parts with
  | nil => rfl
  | cons s rest ih => simp [foldAll, ih]

end Sketch

end Folds

mutual

theorem Sketch.blocks_eq_fold : ∀ s : Sketch, s.blocks = s.fold (fun b => [b]) fun _ => List.flatten
  | .block b => by simp [Sketch.fold]
  | .node kind exits parts => by simp [Sketch.fold, Sketch.blocksOf_eq_foldAll parts]

theorem Sketch.blocksOf_eq_foldAll :
    ∀ parts : List Sketch, blocksOf parts = (Sketch.foldAll (fun b => [b]) (fun _ => List.flatten) parts).flatten
  | [] => by simp [Sketch.foldAll]
  | s :: rest => by simp [Sketch.foldAll, Sketch.blocks_eq_fold s, Sketch.blocksOf_eq_foldAll rest]

end

namespace Region

/-- The blocks of a region, in order. -/
def blocks (r : Region) : List BlockId := r.fold (fun b => [b]) fun _ => List.flatten

/-- The blocks of regions, in order. -/
def blocksAll (rs : List Region) : List BlockId := (foldAll (fun b => [b]) (fun _ => List.flatten) rs).flatten

mutual

/-- The region and all that is in it, a node before its own children. -/
def preorder : Region → List Child
  | .block b => [.block b]
  | .node id _ _ _ children => .node id :: preorderAll children

/-- The regions and all that is in them, in order. -/
def preorderAll : List Region → List Child
  | [] => []
  | r :: rs => r.preorder ++ preorderAll rs

end

theorem preorderAll_eq (rs : List Region) : preorderAll rs = rs.flatMap preorder := by
  induction rs with
  | nil => rfl
  | cons r rs ih => simp [preorderAll, ih]

mutual

theorem block?_preorder : ∀ r : Region, r.preorder.filterMap Child.block? = r.blocks
  | .block b => by simp [preorder, blocks, fold, Child.block?]
  | .node id kind depth first children => by
    rw [preorder, List.filterMap_cons_none rfl, block?_preorderAll children]
    simp [blocks, fold, blocksAll]

theorem block?_preorderAll : ∀ rs : List Region, (preorderAll rs).filterMap Child.block? = blocksAll rs
  | [] => by simp [preorderAll, blocksAll, foldAll]
  | r :: rs => by simp [preorderAll, block?_preorder r, block?_preorderAll rs, blocksAll, blocks, foldAll]

end

end Region

/-! ### Consumers -/

section Consumers
variable {α β σ : Type}

/-- Hand the items to the consumer, one after the other, until it stops. -/
def feed (yield : α → σ → ForInStep σ) : List α → σ → ForInStep σ
  | [], s => .yield s
  | a :: items, s =>
    match yield a s with
    | .done s => .done s
    | .yield s => feed yield items s

theorem feed_append (yield : α → σ → ForInStep σ) (xs ys : List α) (s : σ) :
    feed yield (xs ++ ys) s = match feed yield xs s with
      | .done s => .done s
      | .yield s => feed yield ys s := by
  induction xs generalizing s with
  | nil => rfl
  | cons a xs ih =>
    simp only [List.cons_append, feed]
    cases yield a s with
    | done s => rfl
    | yield s => exact ih s

/-- A consumer that lets some items pass is handed the other ones. -/
theorem feed_filterMap (f : α → Option β) (yield : β → σ → ForInStep σ) (items : List α) (s : σ) :
    feed (fun a s => match f a with
      | some b => yield b s
      | none => .yield s) items s = feed yield (items.filterMap f) s := by
  induction items generalizing s with
  | nil => rfl
  | cons a items ih =>
    cases h : f a with
    | none => simp [feed, h, ih]
    | some b =>
      simp only [feed, h, List.filterMap_cons]
      cases yield b s with
      | done s => rfl
      | yield s => exact ih s

theorem feed_keep_none (items kept : List α) : feed (Tree.keep none) items kept = .yield (kept ++ items) := by
  induction items generalizing kept with
  | nil => simp [feed]
  | cons a items ih => simp [feed, Tree.keep, ih]

end Consumers

namespace Region

mutual

/-- A walk over a region hands its pre-order to the consumer. -/
theorem walk_eq_feed {σ : Type} (yield : Child → σ → ForInStep σ) : ∀ (r : Region) (s : σ),
    r.walk yield s = feed yield r.preorder s
  | .block b, s => by
    simp only [walk, preorder, feed]
    cases yield (.block b) s <;> rfl
  | .node id kind depth first children, s => by
    simp only [walk, preorder, feed]
    cases yield (.node id) s with
    | done s => rfl
    | yield s => exact walkAll_eq_feed yield children s

theorem walkAll_eq_feed {σ : Type} (yield : Child → σ → ForInStep σ) : ∀ (rs : List Region) (s : σ),
    walkAll yield rs s = feed yield (preorderAll rs) s
  | [], s => by simp only [walkAll, preorderAll, feed]
  | r :: rs, s => by
    simp only [walkAll, preorderAll, feed_append, walk_eq_feed yield r s]
    cases feed yield r.preorder s with
    | done s => rfl
    | yield s => exact walkAll_eq_feed yield rs s

end

end Region

namespace Tree

/-- The region of a tree is that of a node, the root. -/
theorem region_eq_node (t : Tree) : ∃ kind depth firstBlock,
    t.region = .node t.root kind depth firstBlock t.region.children := by
  unfold region
  cases t.nodes.size with
  | zero => exact ⟨_, _, _, rfl⟩
  | succ fuel =>
    unfold regionOf
    split <;> exact ⟨_, _, _, rfl⟩

theorem blocks_region (t : Tree) : t.region.blocks = Region.blocksAll t.region.children := by
  obtain ⟨kind, depth, firstBlock, h⟩ := t.region_eq_node
  rw [h]
  rfl

section
variable {σ : Type} (t : Tree) (s : σ)

theorem walkChildren_eq_feed (yield : Child → σ → ForInStep σ) :
    t.walkChildren yield s = feed yield (Region.preorderAll t.region.children) s :=
  Region.walkAll_eq_feed yield _ s

theorem walkNodes_eq_feed (yield : NodeId → σ → ForInStep σ) : t.walkNodes yield s =
    feed yield (t.root :: (Region.preorderAll t.region.children).filterMap Child.node?) s := by
  unfold walkNodes
  rw [feed]
  cases yield t.root s with
  | done s => rfl
  | yield s =>
    dsimp only
    rw [← feed_filterMap]
    refine (t.walkChildren_eq_feed s _).trans ?_
    congr 1
    funext c s
    cases c <;> rfl

theorem walkBlocks_eq_feed (yield : BlockId → σ → ForInStep σ) : t.walkBlocks yield s =
    feed yield ((Region.preorderAll t.region.children).filterMap Child.block?) s := by
  rw [← feed_filterMap]
  refine (t.walkChildren_eq_feed s _).trans ?_
  congr 1
  funext c s
  cases c <;> rfl

end

theorem children_eq (t : Tree) : t.children none = Region.preorderAll t.region.children := by
  simp [children, walkChildren_eq_feed, feed_keep_none, final]

theorem nodeList_eq_filterMap (t : Tree) : t.nodeList none = t.root :: (t.children none).filterMap Child.node? := by
  simp [nodeList, walkNodes_eq_feed, feed_keep_none, final, children_eq]

theorem blockList_eq_filterMap (t : Tree) : t.blockList none = (t.children none).filterMap Child.block? := by
  simp [blockList, walkBlocks_eq_feed, feed_keep_none, final, children_eq]

theorem blockList_eq (t : Tree) : t.blockList none = t.region.blocks := by
  rw [blockList_eq_filterMap, children_eq, Region.block?_preorderAll, blocks_region]

section
variable {t : Tree} {unvisited : List BlockId}

/-- The region of a child is folded like its sketch. -/
theorem fold_regionOf {α : Type} (block : BlockId → α) (node : Kind → List α → α) {c : Child} {depth : Nat} {s : Sketch}
    (h : Draws (t.draft unvisited) c depth s) :
    ∀ fuel, (∀ id, c = .node id → id < fuel) → (t.regionOf fuel c).fold block node = s.fold block node := by
  induction h with
  | block b => intro fuel _; cases fuel <;> simp [regionOf, Region.fold, Sketch.fold]
  | @node id n depth parts found depth_eq first_eq length_eq tied inside ih =>
    intro fuel hfuel
    obtain ⟨fuel, rfl⟩ : ∃ k, fuel = k + 1 :=
      Nat.exists_eq_succ_of_ne_zero (Nat.ne_of_gt (Nat.zero_lt_of_lt (hfuel id rfl)))
    have found : t.node? id = some n := found
    have hparts : n.children.map (fun c => (t.regionOf fuel c).fold block node) = parts.map (Sketch.fold block node) := by
      refine List.ext_getElem (by simpa using length_eq) fun i hi hi' => ?_
      rw [List.length_map] at hi hi'
      rw [List.getElem_map, List.getElem_map]
      refine ih i _ _ (List.getElem?_eq_getElem hi) (List.getElem?_eq_getElem hi') fuel fun id' hid' => ?_
      have htied := tied i _ (List.getElem?_eq_getElem hi)
      rw [hid'] at htied
      exact Nat.lt_of_lt_of_le htied.1 (Nat.le_of_lt_succ (hfuel id rfl))
    simp only [regionOf, found, Region.fold, Sketch.fold, Region.foldAll_eq_map, Sketch.foldAll_eq_map, List.map_map,
      ← hparts, Function.comp_def]

end

/-- A tree that is drawn in full is folded like its sketch. -/
theorem fold_region {α : Type} (block : BlockId → α) (node : Kind → List α → α) {t : Tree} {unvisited : List BlockId}
    {sketch : Sketch} (h : Draws (t.draft unvisited) (.node t.root) 0 sketch) :
    t.region.fold block node = sketch.fold block node := by
  have hroot : t.root < t.nodes.size := by
    obtain ⟨n, hn, -⟩ := h.found
    exact (Array.getElem?_eq_some_iff.mp hn).1
  refine fold_regionOf block node h t.nodes.size fun id hid => ?_
  cases hid
  exact hroot

/-- The blocks of a built tree, in the order in which they are emitted. -/
theorem Built.blockList_eq {g : FlowGraph} {before : Placement} {t : Tree} {sketch : Sketch} {unvisited : List BlockId}
    (h : Built g before t sketch unvisited) : t.blockList none = sketch.blocks := by
  rw [t.blockList_eq, sketch.blocks_eq_fold]
  exact fold_region _ _ h.draws

end Tree
end FlowTree
