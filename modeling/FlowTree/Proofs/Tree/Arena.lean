import FlowTree.Proofs.Tree.Coverage
import FlowTree.Proofs.Tree.Nesting
import FlowTree.Proofs.Tree.Placement

/-!
The table of nodes of a built tree. The links from nodes to the nodes that they are in, the depths, the first blocks and
the places of blocks are all written by themselves while the tree is built; together they describe one tree, with every
node of the table in it (`Arena`).
-/

namespace FlowTree

open Sketch Structuring

namespace Region

mutual

/-- The nodes of a region in pre-order. -/
def nodeIds : Region → List NodeId
  | .block _ => []
  | .node id _ _ _ children => id :: nodeIdsAll children

/-- The nodes of regions in pre-order. -/
def nodeIdsAll : List Region → List NodeId
  | [] => []
  | r :: rs => r.nodeIds ++ nodeIdsAll rs

end

theorem nodeIdsAll_eq (rs : List Region) : nodeIdsAll rs = rs.flatMap nodeIds := by
  induction rs with
  | nil => rfl
  | cons r rs ih => simp [nodeIdsAll, ih]

mutual

theorem node?_preorder : ∀ r : Region, r.preorder.filterMap Child.node? = r.nodeIds
  | .block b => by simp [preorder, nodeIds, Child.node?]
  | .node id kind depth first children => by
    have hhead : Child.node? (.node id : Child) = some id := rfl
    rw [preorder, List.filterMap_cons_some hhead, node?_preorderAll children, nodeIds]

theorem node?_preorderAll : ∀ rs : List Region, (preorderAll rs).filterMap Child.node? = nodeIdsAll rs
  | [] => by simp [preorderAll, nodeIdsAll]
  | r :: rs => by simp [preorderAll, nodeIdsAll, node?_preorder r, node?_preorderAll rs]

end

end Region

namespace Tree

theorem nodeIds_region (t : Tree) : t.region.nodeIds = t.root :: Region.nodeIdsAll t.region.children := by
  obtain ⟨kind, depth, firstBlock, h⟩ := t.region_eq_node
  rw [h]
  rfl

theorem nodeList_eq (t : Tree) : t.nodeList none = t.region.nodeIds := by
  rw [nodeList_eq_filterMap, children_eq, Region.node?_preorderAll, nodeIds_region]

/-- The node is the child, or is in the node that the child is. -/
inductive Under (t : Tree) (id : NodeId) : Child → Prop
  | self : Under t id (.node id)
  | child {top : NodeId} {n : Node} {c : Child} (found : t.node? top = some n) (child : c ∈ n.children)
    (inside : Under t id c) : Under t id (.node top)

section
variable {t : Tree} {unvisited : List BlockId} {c : Child} {depth fuel : Nat} {s : Sketch} {id top : NodeId}

theorem nodeIds_regionOf_block (b : BlockId) : (t.regionOf fuel (.block b)).nodeIds = [] := by
  cases fuel <;> simp [regionOf, Region.nodeIds]

theorem nodeIds_regionOf_succ {n : Node} (found : t.node? top = some n) :
    (t.regionOf (fuel + 1) (.node top)).nodeIds = top :: n.children.flatMap fun c => (t.regionOf fuel c).nodeIds := by
  simp [regionOf, found, Region.nodeIds, Region.nodeIdsAll_eq, List.flatMap_map]

theorem under_of_mem_nodeIds (hid : id ∈ (t.regionOf fuel c).nodeIds) : t.Under id c := by
  induction fuel generalizing c with
  | zero =>
    cases c with
    | block b => simp [nodeIds_regionOf_block] at hid
    | node top =>
      obtain rfl : id = top := by simpa [regionOf, Region.nodeIds, Region.nodeIdsAll] using hid
      exact .self
  | succ fuel ih =>
    cases c with
    | block b => simp [nodeIds_regionOf_block] at hid
    | node top =>
      cases found : t.node? top with
      | none =>
        obtain rfl : id = top := by simpa [regionOf, found, Region.nodeIds, Region.nodeIdsAll] using hid
        exact .self
      | some n =>
        rw [nodeIds_regionOf_succ found] at hid
        rcases List.mem_cons.mp hid with rfl | hid
        · exact .self
        · obtain ⟨c, hc, hid⟩ := List.mem_flatMap.mp hid
          exact .child found hc (ih hid)

/-- A child that is a node has a smaller number than the node it is in. -/
theorem lt_of_draws {n : Node} (h : Draws (t.draft unvisited) (.node top) depth s) (found : t.node? top = some n)
    (child : .node id ∈ n.children) : id < top := by
  cases h with
  | @node _ n' _ _ found' _ _ _ tied _ =>
    obtain rfl : n = n' := Option.some.inj (found.symm.trans found')
    obtain ⟨i, hi⟩ := List.mem_iff_getElem?.mp child
    exact (tied i _ hi).1

theorem Under.le (hid : t.Under id c) (h : Draws (t.draft unvisited) c depth s) : ∀ top, c = .node top → id ≤ top := by
  induction hid generalizing depth s with
  | self =>
    rintro top heq
    cases heq
    exact Nat.le_refl _
  | @child top n c found child _ ih =>
    rintro _ heq
    cases heq
    obtain ⟨parts, rfl, hparts⟩ := parts_of_draws found h
    obtain ⟨p, -, hdraws⟩ := exists_of_mem_left hparts child
    cases c with
    | block b => cases ‹t.Under id (.block b)›
    | node id' => exact (ih hdraws id' rfl).trans (lt_of_draws h found child).le

/-- A node in a child has a block of the child as its first one. -/
theorem Under.first_mem (hid : t.Under id c) (h : Draws (t.draft unvisited) c depth s) (hshaped : Shaped s) :
    ∃ n, t.node? id = some n ∧ n.firstBlock ∈ s.blocks := by
  induction hid generalizing depth s with
  | self =>
    obtain ⟨n, found, hfirst⟩ := h.found
    exact ⟨n, found, hfirst ▸ hshaped.first_mem⟩
  | child found child _ ih =>
    obtain ⟨parts, rfl, hparts⟩ := parts_of_draws found h
    obtain ⟨p, hp, hdraws⟩ := exists_of_mem_left hparts child
    obtain ⟨n, hn, hfirst⟩ := ih hdraws (hshaped.of_node.2 p hp)
    rw [blocks_node]
    exact ⟨n, hn, mem_blocksOf.mpr ⟨p, hp, hfirst⟩⟩

/-- No node is in a child twice: different children have different blocks, and a node has a block. -/
theorem nodup_nodeIds (h : Draws (t.draft unvisited) c depth s) (hshaped : Shaped s) (hnodup : s.blocks.Nodup) :
    (t.regionOf fuel c).nodeIds.Nodup := by
  induction fuel generalizing c depth s with
  | zero => cases c <;> simp [regionOf, Region.nodeIds, Region.nodeIdsAll]
  | succ fuel ih =>
    cases c with
    | block b => simp [nodeIds_regionOf_block]
    | node top =>
      obtain ⟨n, parts, found, rfl, -, -, hparts⟩ := children_of_draws h
      have hshapedParts := hshaped.of_node.2
      rw [blocks_node] at hnodup
      rw [nodeIds_regionOf_succ found, List.nodup_cons, List.nodup_flatMap]
      refine ⟨fun htop => ?_, fun c hc => ?_, ?_⟩
      · obtain ⟨c, hc, htop⟩ := List.mem_flatMap.mp htop
        obtain ⟨p, -, hdraws⟩ := exists_of_mem_left hparts hc
        cases c with
        | block b => simp [nodeIds_regionOf_block] at htop
        | node id =>
          have hle := (under_of_mem_nodeIds htop).le hdraws id rfl
          exact absurd (lt_of_draws h found hc) (Nat.not_lt.mpr hle)
      · obtain ⟨p, hp, hdraws⟩ := exists_of_mem_left hparts hc
        exact ih hdraws (hshapedParts p hp) (nodup_blocks hnodup hp)
      · rw [List.pairwise_iff_getElem]
        intro i j hi hj hij id hid hid'
        obtain ⟨p, hp, hdraws⟩ := getElem?_of_forall₂ hparts.flip (List.getElem?_eq_getElem hi)
        obtain ⟨q, hq, hdraws'⟩ := getElem?_of_forall₂ hparts.flip (List.getElem?_eq_getElem hj)
        obtain ⟨m, hm, hfirst⟩ := (under_of_mem_nodeIds hid).first_mem hdraws (hshapedParts p (List.mem_of_getElem? hp))
        obtain ⟨m', hm', hfirst'⟩ :=
          (under_of_mem_nodeIds hid').first_mem hdraws' (hshapedParts q (List.mem_of_getElem? hq))
        obtain rfl := Option.some.inj (hm.symm.trans hm')
        exact absurd (index_unique hnodup hp hq hfirst hfirst') hij.ne

theorem Under.mem_nodeIds (hid : t.Under id c) (h : Draws (t.draft unvisited) c depth s)
    (hfuel : ∀ top, c = .node top → top < fuel) : id ∈ (t.regionOf fuel c).nodeIds := by
  induction hid generalizing fuel depth s with
  | self =>
    obtain ⟨fuel, rfl⟩ := Nat.exists_eq_add_of_lt (hfuel id rfl)
    obtain ⟨n, found, -⟩ := h.found
    rw [nodeIds_regionOf_succ found]
    exact List.mem_cons_self
  | @child top n c found child _ ih =>
    obtain ⟨fuel, rfl⟩ : ∃ k, fuel = k + 1 := Nat.exists_eq_add_one.mpr (Nat.zero_lt_of_lt (hfuel top rfl))
    obtain ⟨parts, rfl, hparts⟩ := parts_of_draws found h
    obtain ⟨p, -, hdraws⟩ := exists_of_mem_left hparts child
    have hless : ∀ top', c = .node top' → top' < fuel := by
      rintro top' rfl
      exact Nat.lt_of_lt_of_le (lt_of_draws h found child) (Nat.le_of_lt_succ (hfuel top rfl))
    rw [nodeIds_regionOf_succ found]
    exact List.mem_cons_of_mem _ (List.mem_flatMap.mpr ⟨c, child, ih hdraws hless⟩)

theorem Under.step {n : Node} {id' : NodeId} (hid : t.Under id c) (found : t.node? id = some n)
    (child : .node id' ∈ n.children) : t.Under id' c := by
  induction hid with
  | self => exact .child found child .self
  | child found' child' _ ih => exact .child found' child' ih

theorem Inside.under (hid : t.Inside id) : t.Under id (.node t.root) := by
  induction hid with
  | root => exact .self
  | child _ found child ih => exact ih.step found child

end

/-- The node has the child at the index. -/
def ChildAt (t : Tree) (outer : NodeId) (i : Nat) (c : Child) : Prop :=
  ∃ n, t.node? outer = some n ∧ n.children[i]? = some c

/-- The nodes in the table form one tree, and what is noted in them about it is right. -/
structure Arena (t : Tree) : Prop where
  root_lt : t.root < t.nodes.size
  smaller : ∀ outer i id, t.ChildAt outer i (.node id) → id < outer
  once : ∀ id < t.nodes.size, id ≠ t.root → ∃! place : NodeId × Nat, t.ChildAt place.1 place.2 (.node id)
  parent?_iff : ∀ id outer i, t.parent? id = some (outer, i) ↔ t.ChildAt outer i (.node id)
  root_iff : ∀ id < t.nodes.size, t.parent? id = none ↔ id = t.root
  depth_root : ∀ n, t.node? t.root = some n → n.depth = 0
  depth_child : ∀ outer i id n m, t.ChildAt outer i (.node id) → t.node? outer = some n → t.node? id = some m →
    m.depth = n.depth + 1
  first : ∀ id n, t.node? id = some n → (t.regionOf t.nodes.size (.node id)).blocks.head? = some n.firstBlock
  shape : ∀ id n, t.node? id = some n → shapeFault? n.kind n.children (fun id => (t.node? id).map (·.kind)) = none
  visited : (t.nodeList none).Perm (List.range t.nodes.size)

section
variable {g : FlowGraph} {before : Placement} {t : Tree} {sketch : Sketch} {unvisited : List BlockId}

theorem Built.root_lt (h : Built g before t sketch unvisited) : t.root < t.nodes.size := by
  obtain ⟨n, found, -⟩ := h.draws.found
  exact (Array.getElem?_eq_some_iff.mp found).1

theorem Built.parent?_root (h : Built g before t sketch unvisited) : t.parent? t.root = none := by
  obtain ⟨-, n, found, hparent⟩ := h.drawn.waiting _ (List.mem_singleton_self _) t.root rfl
  have found : t.node? t.root = some n := found
  simp [parent?, found, hparent]

theorem Built.nodeList_perm (h : Built g before t sketch unvisited) : (t.nodeList none).Perm (List.range t.nodes.size) := by
  rw [t.nodeList_eq]
  refine (List.perm_ext_iff_of_nodup (nodup_nodeIds h.draws h.shaped h.nodup) List.nodup_range).mpr fun id => ?_
  rw [List.mem_range]
  constructor
  · intro hid
    obtain ⟨n, found, -⟩ := (under_of_mem_nodeIds hid).first_mem h.draws h.shaped
    exact (Array.getElem?_eq_some_iff.mp found).1
  · intro hid
    refine (h.inside hid).under.mem_nodeIds h.draws fun top heq => ?_
    cases heq
    exact h.root_lt

section
variable {outer id : NodeId} {i : Nat}

theorem ChildAt.lt_size {c : Child} (hchild : t.ChildAt outer i c) : outer < t.nodes.size := by
  obtain ⟨n, found, -⟩ := hchild
  exact (Array.getElem?_eq_some_iff.mp found).1

theorem Built.parent?_eq (hg : g.Linked) (h : Built g before t sketch unvisited) (hchild : t.ChildAt outer i (.node id)) :
    t.parent? id = some (outer, i) := by
  obtain ⟨s, hdraws, -⟩ := (h.inside hchild.lt_size).closed hg h
  obtain ⟨n, found, child⟩ := hchild
  exact parent?_of_draws hdraws found child

theorem Built.exists_childAt (h : Built g before t sketch unvisited) (hid : id < t.nodes.size) (hne : id ≠ t.root) :
    ∃ outer i, t.ChildAt outer i (.node id) := by
  cases h.inside hid with
  | root => exact absurd rfl hne
  | child _ found child =>
    obtain ⟨i, hi⟩ := List.mem_iff_getElem?.mp child
    exact ⟨_, i, _, found, hi⟩

end

theorem Built.arena (hg : g.Linked) (h : Built g before t sketch unvisited) : t.Arena where
  root_lt := h.root_lt
  smaller outer i id hchild := by
    obtain ⟨s, hdraws, -⟩ := (h.inside hchild.lt_size).closed hg h
    obtain ⟨n, found, child⟩ := hchild
    exact lt_of_draws hdraws found (List.mem_of_getElem? child)
  once id hid hne := by
    obtain ⟨outer, i, hchild⟩ := h.exists_childAt hid hne
    refine ⟨(outer, i), hchild, fun place hplace => ?_⟩
    exact Option.some.inj ((h.parent?_eq hg hplace).symm.trans (h.parent?_eq hg hchild))
  parent?_iff id outer i := by
    refine ⟨fun hparent => ?_, h.parent?_eq hg⟩
    have hid : id < t.nodes.size := by
      obtain ⟨n, found, -⟩ := Option.bind_eq_some_iff.mp hparent
      exact (Array.getElem?_eq_some_iff.mp found).1
    have hne : id ≠ t.root := by
      rintro rfl
      rw [h.parent?_root] at hparent
      cases hparent
    obtain ⟨outer', i', hchild⟩ := h.exists_childAt hid hne
    cases (h.parent?_eq hg hchild).symm.trans hparent
    exact hchild
  root_iff id hid := by
    refine ⟨fun hnone => ?_, fun heq => heq ▸ h.parent?_root⟩
    by_contra hne
    obtain ⟨outer, i, hchild⟩ := h.exists_childAt hid hne
    exact Option.some_ne_none _ ((h.parent?_eq hg hchild).symm.trans hnone)
  depth_root n found := by
    obtain ⟨n', parts, found', -, hdepth, -⟩ := children_of_draws h.draws
    obtain rfl := Option.some.inj (found.symm.trans found')
    exact hdepth
  depth_child outer i id n m hchild found found' := by
    obtain ⟨s, hdraws, -⟩ := (h.inside hchild.lt_size).closed hg h
    obtain ⟨_, foundOuter, child⟩ := hchild
    obtain rfl := Option.some.inj (found.symm.trans foundOuter)
    obtain ⟨n', parts, foundOuter, -, hdepth, -, hparts⟩ := children_of_draws hdraws
    obtain rfl := Option.some.inj (found.symm.trans foundOuter)
    obtain ⟨p, -, hinner⟩ := exists_of_mem_left hparts (List.mem_of_getElem? child)
    obtain ⟨m', _, found'', -, hdepth', -⟩ := children_of_draws hinner
    obtain rfl := Option.some.inj (found'.symm.trans found'')
    rw [hdepth', hdepth]
  first id n found := by
    have hid := (Array.getElem?_eq_some_iff.mp found).1
    obtain ⟨s, hdraws, hclosed⟩ := (h.inside hid).closed hg h
    obtain ⟨n', found', hfirst⟩ := hdraws.found
    obtain rfl := Option.some.inj (found.symm.trans found')
    have hblocks : (t.regionOf t.nodes.size (.node id)).blocks = s.blocks := by
      rw [s.blocks_eq_fold]
      exact fold_regionOf _ _ hdraws _ fun id' heq => by cases heq; exact hid
    rw [hblocks, hfirst]
    exact hclosed.shaped.head?_blocks
  shape id n found := by
    obtain ⟨s, hdraws, hclosed⟩ := (h.inside (Array.getElem?_eq_some_iff.mp found).1).closed hg h
    obtain ⟨parts, rfl, hparts⟩ := parts_of_draws found hdraws
    have hshape := hclosed.shaped.of_node.1.shapeFault?_eq_none hparts
    exact hshape
  visited := h.nodeList_perm

/-- A block that had no place before stands in the tree where its place is. -/
theorem Built.place?_iff (hg : g.Linked) (h : Built g before t sketch unvisited) (hsize : before.size = g.size)
    {b : BlockId}
    (hnone : before.place? b = none) {place : Place} :
    t.place? b = some place ↔ ∃ (id : NodeId) (i : Nat), t.ChildAt id i (.block b) ∧ place = ⟨id, i⟩ := by
  constructor
  · intro hplace
    have hmem : b ∈ sketch.blocks := by
      by_contra hmem
      have hframe : t.place? b = before.place? b := h.drawn.frame b (by simpa [Piece.inner] using hmem)
      rw [hframe, hnone] at hplace
      cases hplace
    obtain ⟨id, n, i, found, child, hplace'⟩ := h.stands hsize (h.lt_of_mem hmem) hmem
    exact ⟨id, i, ⟨n, found, child⟩, Option.some.inj (hplace.symm.trans hplace')⟩
  · rintro ⟨id, i, hchild, rfl⟩
    obtain ⟨s, hdraws, hclosed⟩ := (h.inside hchild.lt_size).closed hg h
    obtain ⟨n, found, child⟩ := hchild
    have hmem : b ∈ sketch.blocks := by
      refine (h.mem_blocks_iff hg).mpr (hclosed.reached b ((holds_iff hdraws).mp ?_))
      exact .node found (List.mem_of_getElem? child) (.block b)
    have hlt : b < t.places.size := h.drawn.places_size.symm ▸ hsize.symm ▸ h.lt_of_mem hmem
    cases hdraws with
    | @node _ n' _ _ found' _ _ _ tied _ =>
      obtain rfl : n = n' := Option.some.inj (found.symm.trans found')
      exact tied i _ child hlt

end

end Tree

/-- The table of nodes of a tree is well formed, and a block without a place before has the place where it stands. No block
of a graph has a place before its first tree is built. -/
theorem arena_wellFormed {f : Function} {g : FlowGraph} {before : Placement} {t : Tree}
    (accepted : FlowGraph.build f = .ok g) (hsize : before.size = g.size) (structured : (Tree.build g before).1 = .ok t) :
    t.Arena ∧ ∀ b, before.place? b = none → ∀ place, t.place? b = some place ↔
      ∃ (id : NodeId) (i : Nat), t.ChildAt id i (.block b) ∧ place = ⟨id, i⟩ := by
  have hg := FlowGraph.build_linked accepted
  obtain ⟨sketch, unvisited, h⟩ := Tree.build_ok hg structured
  exact ⟨h.arena hg, fun b hnone place => h.place?_iff hg hsize hnone⟩

theorem arena_wellFormed_fallthrough : ∃ g t, FlowGraph.build fallthroughSample = .ok g ∧
    (Tree.build g (.none g)).1 = .ok t ∧ (Placement.none g).size = g.size ∧ t.Arena ∧ ∀ b place, t.place? b = some place ↔
      ∃ (id : NodeId) (i : Nat), t.ChildAt id i (.block b) ∧ place = ⟨id, i⟩ := by
  obtain ⟨g, t, -, hbuild, htree, -⟩ := fallthroughSample_built
  have hsize : (Placement.none g).size = g.size := by simp [Placement.none]
  obtain ⟨harena, hplaces⟩ := arena_wellFormed hbuild hsize htree
  exact ⟨g, t, hbuild, htree, hsize, harena, fun b => hplaces b (Tree.place?_none g b)⟩

end FlowTree
