import FlowTree.Proofs.Structuring.Soundness
import FlowTree.Tree.Walk

/-!
Trees that were built. Such a tree is a sketch that is drawn into a table of nodes (`Built`), so what is known
of sketches holds of it: which blocks a child holds, in which order they are walked through and where they are
placed. A build that gives no tree is a rejection, unless a block of the graph had a place before.
-/

namespace FlowTree

open Sketch Structuring

namespace Tree

/-- The block is the child, or is in the node that the child is. -/
inductive Holds (t : Tree) : Child → BlockId → Prop
  | block (b : BlockId) : Holds t (.block b) b
  | node {id : NodeId} {n : Node} {c : Child} {b : BlockId} (found : t.node? id = some n) (child : c ∈ n.children)
    (inside : Holds t c b) : Holds t (.node id) b

/-- The draft that structuring starts with. -/
def blank (g : FlowGraph) (before : Placement) : Draft := { unvisited := List.range g.size, placement := before }

/-- The draft that the tree was, with the blocks that were not visited. -/
def draft (t : Tree) (unvisited : List BlockId) : Draft := ⟨t.nodes, unvisited, t.places⟩

/-- The tree is a sketch, drawn from the blocks of a graph some of which had places before. -/
structure Built (g : FlowGraph) (before : Placement) (t : Tree) (sketch : Sketch) (unvisited : List BlockId) : Prop where
  graph_eq : t.graph = g
  rooted : Rooted g sketch
  drawn : Drawn (blank g before) (t.draft unvisited) [⟨.node t.root, 0, sketch⟩]

/-- Why building a tree may give none: the control flow is rejected, or a block has a place already. -/
def Stops (before : Placement) (h : Halt) (_ : Draft) : Prop :=
  (∃ r, h = .rejected r) ∨ ∃ b place, before.place? b = some place

theorem ready_blank (g : FlowGraph) {before : Placement} {halts : Halt → Draft → Prop}
    (h : ∀ b place, before.place? b = some place → ∀ f d, halts (.fault f) d) : Ready g halts (blank g before) where
  nodup := List.nodup_range
  inRange _ hb := List.mem_range.mp hb
  unplaced b _ place hplace := h b place hplace

theorem ready_stops (g : FlowGraph) (before : Placement) : Ready g (Stops before) (blank g before) :=
  ready_blank g fun b place hplace _ _ => Or.inr ⟨b, place, hplace⟩

theorem root_ends {g : FlowGraph} (hg : g.Linked) (before : Placement) :
    Ends (Structuring.root g) (blank g before) (fun id d' => ∃ sketch,
      Drawn (blank g before) d' [⟨.node id, 0, sketch⟩] ∧ Rooted g sketch) (Stops before) :=
  root_sound hg (fun r _ => Or.inl ⟨r, rfl⟩) (ready_stops g before) (by simp [blank])

/-- A build ends as structuring does. -/
theorem build_ends {g : FlowGraph} {before : Placement} {ok : NodeId → Draft → Prop} {halts : Halt → Draft → Prop}
    (h : Ends (Structuring.root g) (blank g before) ok halts) :
    (∃ t unvisited, (Tree.build g before).1 = .ok t ∧ t.graph = g ∧ ok t.root (t.draft unvisited)) ∨
      ∃ e d, (Tree.build g before).1 = .error e ∧ halts e d := by
  unfold Ends blank at h
  unfold Tree.build
  split <;> rename_i hroot <;> simp only [hroot] at h
  · exact Or.inl ⟨_, _, rfl, rfl, h⟩
  · exact Or.inr ⟨_, _, rfl, h⟩
  · exact Or.inr ⟨_, _, rfl, h⟩

theorem build_ok {g : FlowGraph} (hg : g.Linked) {before : Placement} {t : Tree} (h : (Tree.build g before).1 = .ok t) :
    ∃ sketch unvisited, Built g before t sketch unvisited := by
  rcases build_ends (root_ends hg before) with ⟨t', unvisited, h', hgraph, sketch, hdrawn, hrooted⟩ | ⟨e, d, h', -⟩
  · rw [h] at h'
    cases h'
    exact ⟨sketch, unvisited, hgraph, hrooted, hdrawn⟩
  · rw [h] at h'
    cases h'

theorem build_error {g : FlowGraph} (hg : g.Linked) {before : Placement} {e : Halt}
    (h : (Tree.build g before).1 = .error e) : (∃ r, e = .rejected r) ∨ ∃ b place, before.place? b = some place := by
  rcases build_ends (root_ends hg before) with ⟨t, unvisited, h', -⟩ | ⟨e', d, h', hstops⟩
  · rw [h] at h'
    cases h'
  · rw [h] at h'
    cases h'
    exact hstops

theorem place?_none (g : FlowGraph) (b : BlockId) : (Placement.none g).place? b = none := by
  unfold Placement.none Placement.place?
  rw [Array.getElem?_replicate]
  split <;> rfl

section
variable {t : Tree} {unvisited : List BlockId} {c : Child} {depth : Nat} {s : Sketch} {b : BlockId}

theorem children_of_draws {id : NodeId} (h : Draws (t.draft unvisited) (.node id) depth s) :
    ∃ n parts, t.node? id = some n ∧ s = .node n.kind n.exits parts ∧ n.depth = depth ∧ n.firstBlock = firstOf parts ∧
      List.Forall₂ (fun c s => Draws (t.draft unvisited) c (depth + 1) s) n.children parts := by
  cases h with
  | @node _ n _ parts found depth_eq first_eq length_eq _ inside =>
    refine ⟨n, parts, found, rfl, depth_eq, first_eq, List.forall₂_iff_get.mpr ⟨length_eq, fun i h h' => ?_⟩⟩
    exact inside i _ _ (List.getElem?_eq_getElem h) (List.getElem?_eq_getElem h')

theorem parts_of_draws {id : NodeId} {n : Node} (found : t.node? id = some n)
    (h : Draws (t.draft unvisited) (.node id) depth s) : ∃ parts, s = .node n.kind n.exits parts ∧
      List.Forall₂ (fun c s => Draws (t.draft unvisited) c (depth + 1) s) n.children parts := by
  obtain ⟨n', parts, found', hs, -, -, hparts⟩ := children_of_draws h
  obtain rfl : n = n' := Option.some.inj (found.symm.trans found')
  exact ⟨parts, hs, hparts⟩

/-- The node that a node is in knows its children, and they know where they are. -/
theorem parent?_of_draws {outer id : NodeId} {n : Node} {i : Nat} (h : Draws (t.draft unvisited) (.node outer) depth s)
    (found : t.node? outer = some n) (child : n.children[i]? = some (.node id)) : t.parent? id = some (outer, i) := by
  cases h with
  | @node _ n' _ _ found' _ _ _ tied _ =>
    obtain rfl : n = n' := Option.some.inj (found.symm.trans found')
    obtain ⟨-, m, foundChild, hparent⟩ := tied i _ child
    have foundChild : t.node? id = some m := foundChild
    simp [parent?, foundChild, hparent]

/-- A child holds the blocks of its sketch. -/
theorem holds_iff (h : Draws (t.draft unvisited) c depth s) : t.Holds c b ↔ b ∈ s.blocks := by
  constructor
  · intro hb
    induction hb generalizing depth s with
    | block b =>
      rw [h.eq_block]
      simp
    | node found child _ ih =>
      obtain ⟨parts, rfl, hparts⟩ := parts_of_draws found h
      obtain ⟨part, hpart, hdraws⟩ := exists_of_mem_left hparts child
      rw [blocks_node]
      exact mem_blocksOf.mpr ⟨part, hpart, ih hdraws⟩
  · intro hb
    induction h with
    | block b' =>
      rw [blocks_block, List.mem_singleton] at hb
      exact hb ▸ .block b
    | @node id n depth parts found depth_eq first_eq length_eq tied inside ih =>
      rw [blocks_node] at hb
      obtain ⟨part, hpart, hb⟩ := mem_blocksOf.mp hb
      obtain ⟨i, hi⟩ := List.mem_iff_getElem?.mp hpart
      have hlt : i < n.children.length := length_eq ▸ (List.getElem?_eq_some_iff.mp hi).1
      have hc := List.getElem?_eq_getElem hlt
      exact .node found (List.getElem_mem hlt) (ih i _ part hc hi hb)

end

/-! ### Blocks of a built tree -/

section
variable {g : FlowGraph} {before : Placement} {t : Tree} {sketch : Sketch} {unvisited : List BlockId}

theorem Built.draws (h : Built g before t sketch unvisited) : Draws (t.draft unvisited) (.node t.root) 0 sketch :=
  h.drawn.draws _ (List.mem_singleton_self _)

theorem Built.nodup (h : Built g before t sketch unvisited) : sketch.blocks.Nodup := by
  simpa using (h.drawn.nodup (ready_stops g before)).1

/-- The blocks of the tree are those in reach. -/
theorem Built.mem_blocks_iff (hg : g.Linked) (h : Built g before t sketch unvisited) {b : BlockId} :
    b ∈ sketch.blocks ↔ g.Reached b := by
  obtain ⟨parts, loose, hspan, -, rfl⟩ := h.rooted
  have facts := Spans.facts hg _ hspan
  have hnone : ∀ v e, ¬loose.Records v e := fun v e he => List.not_mem_nil (facts.targets v e he)
  rw [blocks_node]
  constructor
  · exact facts.reached b
  · intro hb
    induction hb with
    | refl => exact facts.start_mem
    | tail _ hstep ih =>
      obtain ⟨e, he⟩ := FlowGraph.mem_successors_iff.mp hstep
      exact (facts.closed _ ih _ e he).resolve_right (hnone _ e)

/-- Every transfer of control in the tree is explained. -/
theorem Built.explained (hg : g.Linked) (h : Built g before t sketch unvisited) : Explained g sketch := by
  have hnodup := h.nodup
  obtain ⟨parts, loose, hspan, -, rfl⟩ := h.rooted
  have hnone : ∀ e, ¬loose.Records g.entry e := fun e he =>
    List.not_mem_nil ((Spans.facts hg _ hspan).targets _ e he)
  obtain ⟨hsequential, hparts⟩ := Spans.explained hg _ hspan (by simpa using hnodup) hnone
  exact .part rfl hsequential hparts

end

end Tree

/-- The function has a graph and a tree that pass the test. -/
def hasTree (f : Function) (test : FlowGraph → Tree → Bool) : Bool :=
  hasGraph f fun g => match (Tree.build g (.none g)).1 with
    | .ok t => test g t
    | .error _ => false

theorem exists_of_hasTree {f : Function} {test : FlowGraph → Tree → Bool} (h : hasTree f test = true) :
    ∃ g t, FlowGraph.build f = .ok g ∧ (Tree.build g (.none g)).1 = .ok t ∧ test g t = true := by
  obtain ⟨g, hbuild, htree⟩ := exists_of_hasGraph h
  split at htree
  · exact ⟨g, _, hbuild, ‹_›, htree⟩
  · cases htree

/-- A loop of two blocks between an entry and an exit, and a block out of reach. -/
def loopSample : Function where
  name := "loop"
  instructions := [
    { op := .label, result := 1 }, { op := .branch, operands := [.ofId 2] },
    { op := .label, result := 2 }, { op := .loopMerge, operands := [.ofId 4, .ofId 2] },
    { op := .branchConditional, operands := [.ofId 9, .ofId 3, .ofId 4] },
    { op := .label, result := 3 }, { op := .branch, operands := [.ofId 2] },
    { op := .label, result := 4 }, { op := .return },
    { op := .label, result := 5 }, { op := .branch, operands := [.ofId 4] }]

/-- The sample has a graph and a tree, and the second block of its loop goes back to the first. -/
theorem loopSample_built : ∃ g t, FlowGraph.build loopSample = .ok g ∧ (Tree.build g (.none g)).1 = .ok t ∧
    g.successors 0 = [1] ∧ g.successors 1 = [2, 3] ∧ g.successors 2 = [1] := by
  have hchecked : hasTree loopSample (fun g _ =>
      g.successors 0 = [1] ∧ g.successors 1 = [2, 3] ∧ g.successors 2 = [1]) = true := by decide +kernel
  obtain ⟨g, t, hbuild, htree, htest⟩ := exists_of_hasTree hchecked
  exact ⟨g, t, hbuild, htree, of_decide_eq_true htest⟩

end FlowTree
