import FlowTree.Proofs.Tree.Built
import Mathlib.Data.Finset.Max

/-!
Transfers of control in a built tree. For every edge of the graph between blocks in reach there is a deepest
node that holds both of its ends, and there the edge is one of those that the kind of the node allows.
-/

namespace FlowTree

open Sketch Structuring

namespace Tree

/-- The node is the root or is in a node of the tree. -/
inductive Inside (t : Tree) : NodeId → Prop
  | root : Inside t t.root
  | child {id id' : NodeId} {n : Node} (outer : Inside t id) (found : t.node? id = some n)
    (child : .node id' ∈ n.children) : Inside t id'

/-- The depth of a node. -/
def depthOf (t : Tree) (id : NodeId) : Nat := ((t.node? id).map (·.depth)).getD 0

/-- The node is the deepest one of the tree that holds both blocks. -/
structure Deepest (t : Tree) (id : NodeId) (u v : BlockId) : Prop where
  inside : t.Inside id
  source : t.Holds (.node id) u
  target : t.Holds (.node id) v
  deepest : ∀ id', t.Inside id' → t.Holds (.node id') u → t.Holds (.node id') v → t.depthOf id' ≤ t.depthOf id

/-- Children as parts of a tree. -/
def view (t : Tree) : PartView Child where
  first?
    | .block b => some b
    | .node id => (t.node? id).map (·.firstBlock)
  kind?
    | .block _ => none
    | .node id => (t.node? id).map (·.kind)
  inner
    | .block _ => []
    | .node id => ((t.node? id).map (·.children)).getD []

/-- The block is in the child with the given index. -/
def HoldsAt (t : Tree) (n : Node) (i : Nat) (b : BlockId) : Prop := ∃ c, n.children[i]? = some c ∧ t.Holds c b

theorem Holds.exists_at {t : Tree} {id : NodeId} {b : BlockId} (h : t.Holds (.node id) b) :
    ∃ n i, t.node? id = some n ∧ t.HoldsAt n i b := by
  cases h with
  | node found child inside =>
    obtain ⟨i, hi⟩ := List.mem_iff_getElem?.mp child
    exact ⟨_, i, found, _, hi, inside⟩

section
variable {t : Tree} {unvisited : List BlockId} {c : Child} {depth : Nat} {s : Sketch}

theorem first?_view (h : Draws (t.draft unvisited) c depth s) : t.view.first? c = Sketch.view.first? s := by
  cases h with
  | block => simp [view, Sketch.view]
  | node found _ first_eq =>
    have found : t.node? _ = some _ := found
    simp [view, Sketch.view, found, first_eq]

theorem kind?_view (h : Draws (t.draft unvisited) c depth s) : t.view.kind? c = Sketch.view.kind? s := by
  cases h with
  | block => rfl
  | node found =>
    have found : t.node? _ = some _ := found
    simp [view, Sketch.view, found]

theorem inner_view (h : Draws (t.draft unvisited) c depth s) :
    List.Forall₂ (fun c s => Draws (t.draft unvisited) c (depth + 1) s) (t.view.inner c) (Sketch.view.inner s) := by
  cases c with
  | block b =>
    rw [h.eq_block]
    exact .nil
  | node id =>
    obtain ⟨n, parts, found, rfl, -, -, hparts⟩ := children_of_draws h
    simpa [view, Sketch.view, found] using hparts

/-- What explains a transfer in a sketch explains it in the tree. -/
theorem explains_of_draws {children : List Child} {parts : List Sketch} {kind : Kind} {i j : Nat} {v : BlockId}
    (hparts : List.Forall₂ (fun c s => Draws (t.draft unvisited) c depth s) children parts)
    (h : Explains Sketch.view kind parts i j v) : Explains t.view kind children i j v := by
  have hchild : ∀ {k : Nat} {s : Sketch}, parts[k]? = some s → ∃ c, children[k]? = some c ∧
      Draws (t.draft unvisited) c depth s := fun hs => getElem?_of_forall₂ hparts hs
  cases h with
  | next sequence after child first =>
    obtain ⟨c, hc, hdraws⟩ := hchild child
    exact .next sequence after hc ((first?_view hdraws).trans first)
  | arm selection header arm child first =>
    obtain ⟨c, hc, hdraws⟩ := hchild child
    exact .arm selection header arm hc ((first?_view hdraws).trans first)
  | case selection source case child first =>
    obtain ⟨c, hc, hdraws⟩ := hchild child
    exact .case selection source case hc ((first?_view hdraws).trans first)
  | back loop header child isBlock first =>
    obtain ⟨c, hc, hdraws⟩ := hchild child
    exact .back loop header hc ((kind?_view hdraws).trans isBlock) ((first?_view hdraws).trans first)
  | body loop header child isBody inside first =>
    obtain ⟨c, hc, hdraws⟩ := hchild child
    obtain ⟨c', hc', hdraws'⟩ := exists_of_mem_right (inner_view hdraws) inside
    exact .body loop header hc ((kind?_view hdraws).trans isBody) hc' ((first?_view hdraws').trans first)
  | continuing loop child isContinue first source =>
    obtain ⟨c, hc, hdraws⟩ := hchild child
    refine .continuing loop hc ((kind?_view hdraws).trans isContinue) ((first?_view hdraws).trans first) ?_
    rcases source with source | ⟨s, hs, hbody⟩
    · exact Or.inl source
    · obtain ⟨c', hc', hdraws'⟩ := hchild hs
      exact Or.inr ⟨c', hc', (kind?_view hdraws').trans hbody⟩

end

/-! ### Nodes of the tree -/

section
variable {g : FlowGraph} {before : Placement} {t : Tree} {sketch : Sketch} {unvisited : List BlockId} {u v : BlockId}

/-- Every node of the tree is drawn, and what is inherited from a node to its children holds of it. -/
theorem Inside.draws (h : Built g before t sketch unvisited) {p : Sketch → Prop} (hroot : p sketch)
    (hparts : ∀ kind exits parts, p (.node kind exits parts) → ∀ s ∈ parts, p s) {id : NodeId} (hid : t.Inside id) :
    ∃ s, Draws (t.draft unvisited) (.node id) (t.depthOf id) s ∧ p s := by
  have hdepth : ∀ {id depth s}, Draws (t.draft unvisited) (.node id) depth s → t.depthOf id = depth := fun hdraws => by
    obtain ⟨n, -, found, -, hdepth, -⟩ := children_of_draws hdraws
    simpa [depthOf, found] using hdepth
  induction hid with
  | root => exact ⟨sketch, (hdepth h.draws).symm ▸ h.draws, hroot⟩
  | child _ found child ih =>
    obtain ⟨s, hdraws, hs⟩ := ih
    obtain ⟨n, parts, found', rfl, -, -, hchildren⟩ := children_of_draws hdraws
    rw [found] at found'
    cases found'
    obtain ⟨s', hs', hdraws'⟩ := exists_of_mem_left hchildren child
    exact ⟨s', (hdepth hdraws').symm ▸ hdraws', hparts _ _ _ hs s' hs'⟩

/-- There is a deepest node with two blocks of the tree. -/
theorem exists_deepest (h : Built g before t sketch unvisited) (hu : u ∈ sketch.blocks) (hv : v ∈ sketch.blocks) :
    ∃ id, t.Deepest id u v := by
  classical
  have hlt : ∀ id, t.Holds (.node id) u → id < t.nodes.size := by
    rintro id (_ | ⟨found, -, -⟩)
    exact (Array.getElem?_eq_some_iff.mp found).1
  let holding := (Finset.range t.nodes.size).filter fun id => t.Inside id ∧ t.Holds (.node id) u ∧ t.Holds (.node id) v
  have hroot : t.root ∈ holding := by
    have hu := (holds_iff h.draws).mpr hu
    have hv := (holds_iff h.draws).mpr hv
    exact Finset.mem_filter.mpr ⟨Finset.mem_range.mpr (hlt _ hu), .root, hu, hv⟩
  obtain ⟨id, hid, hmax⟩ := Finset.exists_max_image holding t.depthOf ⟨t.root, hroot⟩
  obtain ⟨-, inside, source, target⟩ := Finset.mem_filter.mp hid
  refine ⟨id, inside, source, target, fun id' inside' source' target' => hmax id' ?_⟩
  exact Finset.mem_filter.mpr ⟨Finset.mem_range.mpr (hlt _ source'), inside', source', target'⟩

/-- In the deepest node with two blocks, they are in different children, or are one block that is a child. -/
theorem Deepest.crosses {id : NodeId} (hdeepest : t.Deepest id u v) {n : Node} {parts : List Sketch} {i j : Nat}
    (found : t.node? id = some n) (hi : t.HoldsAt n i u) (hj : t.HoldsAt n j v)
    (hparts : List.Forall₂ (fun c s => Draws (t.draft unvisited) c (t.depthOf id + 1) s) n.children parts) :
    Crosses parts i j u v := by
  obtain ⟨c, hc, hu⟩ := hi
  obtain ⟨c', hc', hv⟩ := hj
  obtain ⟨p, hp, hdraws⟩ := getElem?_of_forall₂ hparts.flip hc
  obtain ⟨q, hq, hdraws'⟩ := getElem?_of_forall₂ hparts.flip hc'
  refine ⟨⟨p, hp, (holds_iff hdraws).mp hu, fun hij => ?_⟩, q, hq, (holds_iff hdraws').mp hv⟩
  subst hij
  obtain rfl : c = c' := Option.some.inj (hc.symm.trans hc')
  cases c with
  | block b =>
    cases hu
    exact hdraws.eq_block
  | node id' =>
    -- A node that holds both would be deeper.
    have hle := hdeepest.deepest id' (.child hdeepest.inside found (List.mem_of_getElem? hc)) hu hv
    obtain ⟨m, -, found', -, hdepth, -⟩ := children_of_draws hdraws
    have : t.depthOf id' = t.depthOf id + 1 := by simpa [depthOf, found'] using hdepth
    omega

end

end Tree

/-- Every transfer of control between blocks in reach is explained by the tree: there is a deepest node that
holds both ends, and whichever children of such a node they are in, the kind of the node explains the edge. -/
theorem transfer_explained {f : Function} {g : FlowGraph} {before : Placement} {t : Tree} {u v : BlockId}
    (accepted : FlowGraph.build f = .ok g) (structured : (Tree.build g before).1 = .ok t) (reached : g.Reached u)
    (edge : v ∈ g.successors u) :
    (∃ id n i j, t.Deepest id u v ∧ t.node? id = some n ∧ t.HoldsAt n i u ∧ t.HoldsAt n j v) ∧
      ∀ id n i j, t.Deepest id u v → t.node? id = some n → t.HoldsAt n i u → t.HoldsAt n j v →
        Explains t.view n.kind n.children i j v := by
  have hg := FlowGraph.build_linked accepted
  obtain ⟨sketch, unvisited, h⟩ := Tree.build_ok hg structured
  have hu : u ∈ sketch.blocks := (h.mem_blocks_iff hg).mpr reached
  have hv : v ∈ sketch.blocks := (h.mem_blocks_iff hg).mpr (FlowGraph.Leads.tail reached edge)
  refine ⟨?_, fun id n i j hdeepest found hi hj => ?_⟩
  · obtain ⟨id, hdeepest⟩ := Tree.exists_deepest h hu hv
    obtain ⟨n, i, found, hi⟩ := hdeepest.source.exists_at
    obtain ⟨n', j, found', hj⟩ := hdeepest.target.exists_at
    rw [found] at found'
    cases found'
    exact ⟨id, n, i, j, hdeepest, found, hi, hj⟩
  · obtain ⟨s, hdraws, hs⟩ := hdeepest.inside.draws h (h.explained hg) fun kind exits parts hs s hmem => by
      cases hs with
      | node _ inside => exact inside s hmem
    obtain ⟨n', parts, found', rfl, -, -, hparts⟩ := Tree.children_of_draws hdraws
    rw [found] at found'
    cases found'
    cases hs with
    | node here _ => exact Tree.explains_of_draws hparts (here i j u v (hdeepest.crosses found hi hj hparts) edge)

/-- The way back to the header of a loop is explained. -/
theorem transfer_explained_back : ∃ g t, FlowGraph.build loopSample = .ok g ∧ (Tree.build g (.none g)).1 = .ok t ∧
    g.Reached 2 ∧ 1 ∈ g.successors 2 ∧ ∃ id n i j, t.Deepest id 2 1 ∧ t.node? id = some n ∧ t.HoldsAt n i 2 ∧
      t.HoldsAt n j 1 ∧ Explains t.view n.kind n.children i j 1 := by
  obtain ⟨g, t, hbuild, htree, hentry, hheader, hbody⟩ := loopSample_built
  have hreached : g.Reached 2 := by
    have hheaderReached : g.Reached 1 := FlowGraph.Leads.tail .refl (hentry ▸ List.mem_cons_self : 1 ∈ g.successors 0)
    exact hheaderReached.tail (hheader ▸ List.mem_cons_self)
  have hedge : 1 ∈ g.successors 2 := hbody ▸ List.mem_cons_self
  obtain ⟨⟨id, n, i, j, hdeepest, found, hi, hj⟩, hexplains⟩ := transfer_explained hbuild htree hreached hedge
  exact ⟨g, t, hbuild, htree, hreached, hedge, id, n, i, j, hdeepest, found, hi, hj,
    hexplains id n i j hdeepest found hi hj⟩

end FlowTree
