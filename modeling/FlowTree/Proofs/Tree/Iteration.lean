import FlowTree.Proofs.Tree.Arena

/-!
Walks that are stopped. Whatever the consumer does with the items, a walk is the same as handing it the items of the
full sequence one after the other until it stops, however deep in the tree that happens. So a consumer that stops at
some item has seen the items up to that one and no other, also where a filter stands between it and the walk.
-/

namespace FlowTree

open Sketch Structuring

section
variable {α : Type}

/-- The walk hands the items to its consumer, one after the other, until the consumer stops. -/
structure Hands (walk : (σ : Type) → (α → σ → ForInStep σ) → σ → ForInStep σ) (items : List α) : Prop where
  eq_feed : ∀ {σ : Type} (yield : α → σ → ForInStep σ) (s : σ), walk σ yield s = feed yield items s

/-- A consumer that notes all items that it is handed and stops at the one with the given number. -/
def note (number : Nat) (a : α) (noted : List α) : ForInStep (List α) :=
  if noted.length + 1 = number then .done (noted ++ [a]) else .yield (noted ++ [a])

theorem final_feed_note {number : Nat} {items noted : List α} (h : noted.length < number) :
    Tree.final (feed (note number) items noted) = noted ++ items.take (number - noted.length) := by
  induction items generalizing noted with
  | nil => simp [feed, Tree.final]
  | cons a items ih =>
    have htake : (a :: items).take (number - noted.length) = a :: items.take (number - (noted.length + 1)) := by
      rw [show number - noted.length = number - (noted.length + 1) + 1 by omega, List.take_succ_cons]
    rw [htake]
    by_cases hlast : noted.length + 1 = number
    · simp [feed, note, hlast, Tree.final]
    · have hlt : (noted ++ [a]).length < number := by simp; omega
      have hrest := ih hlt
      simpa [feed, note, hlast] using hrest

theorem final_feed_keep (limit : Nat) (items kept : List α) :
    Tree.final (feed (Tree.keep (some limit)) items kept) = kept ++ items.take (limit - kept.length) := by
  induction items generalizing kept with
  | nil => simp [feed, Tree.final]
  | cons a items ih =>
    by_cases hfull : limit ≤ kept.length
    · simp [feed, Tree.keep, hfull, Tree.final]
    · have htake : (a :: items).take (limit - kept.length) = a :: items.take (limit - (kept.length + 1)) := by
        rw [show limit - kept.length = limit - (kept.length + 1) + 1 by omega, List.take_succ_cons]
      have hrest := ih (kept ++ [a])
      rw [htake]
      simpa [feed, Tree.keep, hfull] using hrest

variable {walk : (σ : Type) → (α → σ → ForInStep σ) → σ → ForInStep σ} {items : List α}

/-- A consumer that stops at an item is handed the items up to that one. -/
theorem Hands.noted (h : Hands walk items) {number : Nat} (hpos : 0 < number) :
    Tree.final (walk _ (note number) []) = items.take number := by
  rw [h.eq_feed, final_feed_note (by simpa using hpos)]
  simp

theorem Hands.kept (h : Hands walk items) (limit : Nat) :
    Tree.final (walk _ (Tree.keep (some limit)) []) = items.take limit := by
  rw [h.eq_feed, final_feed_keep]
  simp

end

/-! ### The full sequence -/

namespace Tree

theorem hands_children (t : Tree) : Hands (fun _ => t.walkChildren) (t.children none) where
  eq_feed yield s := by rw [children_eq, walkChildren_eq_feed]

theorem hands_nodes (t : Tree) : Hands (fun _ => t.walkNodes) (t.nodeList none) where
  eq_feed yield s := by rw [nodeList_eq_filterMap, children_eq, walkNodes_eq_feed]

theorem hands_blocks (t : Tree) : Hands (fun _ => t.walkBlocks) (t.blockList none) where
  eq_feed yield s := by rw [blockList_eq_filterMap, children_eq, walkBlocks_eq_feed]

/-- What is visited in a child: the child, and then all that is in it when it is a node. -/
structure Preorder (t : Tree) (visit : Child → List Child) : Prop where
  block : ∀ b, visit (.block b) = [.block b]
  node : ∀ id n, t.node? id = some n → visit (.node id) = .node id :: n.children.flatMap visit

section
variable {g : FlowGraph} {before : Placement} {t : Tree} {sketch : Sketch} {unvisited : List BlockId}

/-- The region of a child is the same however deep one looks, once it is deep enough. -/
theorem regionOf_eq {c : Child} {depth : Nat} {s : Sketch} (h : Draws (t.draft unvisited) c depth s) :
    ∀ fuel fuel', (∀ id, c = .node id → id < fuel ∧ id < fuel') → t.regionOf fuel c = t.regionOf fuel' c := by
  induction h with
  | block b => intro fuel fuel' _; cases fuel <;> cases fuel' <;> simp [regionOf]
  | @node id n depth parts found depth_eq first_eq length_eq tied inside ih =>
    intro fuel fuel' hfuel
    obtain ⟨hlt, hlt'⟩ := hfuel id rfl
    obtain ⟨fuel, rfl⟩ := Nat.exists_eq_add_one.mpr (Nat.zero_lt_of_lt hlt)
    obtain ⟨fuel', rfl⟩ := Nat.exists_eq_add_one.mpr (Nat.zero_lt_of_lt hlt')
    have found : t.node? id = some n := found
    have hchildren : n.children.map (t.regionOf fuel) = n.children.map (t.regionOf fuel') := by
      refine List.map_congr_left fun c hc => ?_
      obtain ⟨i, hi⟩ := List.mem_iff_getElem?.mp hc
      have hlength : i < parts.length := length_eq ▸ (List.getElem?_eq_some_iff.mp hi).1
      refine ih i c _ hi (List.getElem?_eq_getElem hlength) fuel fuel' fun id' hid' => ?_
      have htied := tied i c hi
      rw [hid'] at htied
      exact ⟨htied.1.trans_le (Nat.le_of_lt_succ hlt), htied.1.trans_le (Nat.le_of_lt_succ hlt')⟩
    simp only [regionOf, found, hchildren]

theorem Built.preorder (hg : g.Linked) (h : Built g before t sketch unvisited) :
    t.Preorder fun c => (t.regionOf t.nodes.size c).preorder where
  block b := by cases t.nodes.size <;> simp [regionOf, Region.preorder]
  node id n found := by
    have hid := (Array.getElem?_eq_some_iff.mp found).1
    obtain ⟨s, hdraws, -⟩ := (h.inside hid).closed hg h
    have hdeeper : t.regionOf t.nodes.size (.node id) = t.regionOf (t.nodes.size + 1) (.node id) :=
      regionOf_eq hdraws _ _ fun id' heq => by cases heq; exact ⟨hid, Nat.lt_succ_of_lt hid⟩
    simp only [hdeeper, regionOf, found, Region.preorder, Region.preorderAll_eq, List.flatMap_map]

end

theorem preorder_region (t : Tree) : t.region.preorder = .node t.root :: t.children none := by
  rw [children_eq]
  obtain ⟨kind, depth, firstBlock, h⟩ := t.region_eq_node
  rw [h]
  rfl

end Tree

/-- Iteration over a tree, stopped or not. The full sequence of children is the pre-order of the tree, and the nodes and
the blocks are what it has of them, the root before the other nodes. Each iteration hands its sequence to the consumer until
the consumer stops; when that is at the item with a given number, the consumer has been handed the items up to there and
no more. -/
theorem iteration_stops {f : Function} {g : FlowGraph} {before : Placement} {t : Tree}
    (accepted : FlowGraph.build f = .ok g) (structured : (Tree.build g before).1 = .ok t) :
    ((∃ visit, t.Preorder visit ∧ visit (.node t.root) = .node t.root :: t.children none) ∧
      t.nodeList none = t.root :: (t.children none).filterMap Child.node? ∧
      t.blockList none = (t.children none).filterMap Child.block?) ∧
    (Hands (fun _ => t.walkChildren) (t.children none) ∧
      Hands (fun _ => t.walkNodes) (t.nodeList none) ∧
      Hands (fun _ => t.walkBlocks) (t.blockList none)) ∧
    (∀ number, 0 < number → Tree.final (t.walkChildren (note number) []) = (t.children none).take number ∧
      Tree.final (t.walkNodes (note number) []) = (t.nodeList none).take number ∧
      Tree.final (t.walkBlocks (note number) []) = (t.blockList none).take number) ∧
    ∀ limit, t.children (some limit) = (t.children none).take limit ∧
      t.nodeList (some limit) = (t.nodeList none).take limit ∧
      t.blockList (some limit) = (t.blockList none).take limit := by
  have hg := FlowGraph.build_linked accepted
  obtain ⟨sketch, unvisited, h⟩ := Tree.build_ok hg structured
  refine ⟨⟨⟨_, h.preorder hg, t.preorder_region⟩, t.nodeList_eq_filterMap, t.blockList_eq_filterMap⟩,
    ⟨t.hands_children, t.hands_nodes, t.hands_blocks⟩, fun number hpos => ?_, fun limit => ?_⟩
  · exact ⟨t.hands_children.noted hpos, t.hands_nodes.noted hpos, t.hands_blocks.noted hpos⟩
  · exact ⟨t.hands_children.kept limit, t.hands_nodes.kept limit, t.hands_blocks.kept limit⟩

/-- A loop in the tree of the sample: iterations stop inside of it, at its body or at a block of its body. -/
theorem iteration_stops_nested : ∃ g t, FlowGraph.build loopSample = .ok g ∧ (Tree.build g (.none g)).1 = .ok t ∧
    t.children none = [.block 0, .node 1, .block 1, .node 0, .block 2, .block 3] ∧
    Tree.final (t.walkChildren (note 4) []) = [.block 0, .node 1, .block 1, .node 0] ∧
    Tree.final (t.walkNodes (note 3) []) = [2, 1, 0] ∧ Tree.final (t.walkBlocks (note 3) []) = [0, 1, 2] := by
  have hchecked : hasTree loopSample (fun _ t => t.root = 2 ∧
      t.children none = [.block 0, .node 1, .block 1, .node 0, .block 2, .block 3]) = true := by decide +kernel
  obtain ⟨g, t, hbuild, htree, htest⟩ := exists_of_hasTree hchecked
  obtain ⟨hroot, hchildren⟩ := of_decide_eq_true htest
  obtain ⟨⟨-, hnodes, hblocks⟩, -, hstops, -⟩ := iteration_stops hbuild htree
  refine ⟨g, t, hbuild, htree, hchildren, ?_, ?_, ?_⟩
  · rw [(hstops 4 (by decide)).1, hchildren]
    rfl
  · rw [(hstops 3 (by decide)).2.1, hnodes, hchildren, hroot]
    rfl
  · rw [(hstops 3 (by decide)).2.2, hblocks, hchildren]
    rfl

end FlowTree
