import FlowTree.Proofs.FlowGraph.Dominance
import FlowTree.Proofs.Tree.LooseEnds
import FlowTree.Proofs.Tree.Shapes

/-!
Nesting and dominance. Control comes into a node at its first block only, except that the header of a loop may branch
to several blocks of the body. So the first block of a node is on every path to a block in it, and for the body of a
loop the header is.
-/

namespace FlowTree

open Sketch Structuring

namespace Sketch

/-- Where control may come into a sketch. -/
def entries : Sketch → List BlockId
  | .node .loopBody _ parts => parts.map first
  | s => [s.first]

/-- Control comes to the block, which is in the sketch, from a block in reach outside of it or from the start. -/
def Entered (g : FlowGraph) (s : Sketch) (v : BlockId) : Prop :=
  v ∈ s.blocks ∧ (v = g.entry ∨ ∃ u, g.Reached u ∧ u ∉ s.blocks ∧ v ∈ g.successors u)

/-- Control comes into the sketch at its entries, and the transfers inside are explained. -/
structure Closed (g : FlowGraph) (s : Sketch) : Prop where
  explained : Explained g s
  shaped : Shaped s
  nodup : s.blocks.Nodup
  reached : ∀ b ∈ s.blocks, g.Reached b
  entered : ∀ v, Entered g s v → v ∈ s.entries

section
variable {g : FlowGraph} {kind : Kind} {exits : BlockExits} {parts : List Sketch} {s : Sketch} {v : BlockId}

theorem Explained.of_node (h : Explained g (.node kind exits parts)) :
    (∀ i j u v, Crosses parts i j u v → v ∈ g.successors u → Explains view kind parts i j v) ∧
      ∀ s ∈ parts, Explained g s := by
  cases h with
  | node here inside => exact ⟨here, inside⟩

theorem mem_entries_loopBody : v ∈ (Sketch.node .loopBody exits parts).entries ↔ ∃ s ∈ parts, s.first = v := by
  simp [entries]

theorem entries_of_ne_loopBody (hs : s.isOfKind .loopBody = false) : s.entries = [s.first] := by
  unfold entries
  split
  · simp [isOfKind] at hs
  · rfl

theorem Shaped.first_mem_entries (h : Shaped s) : s.first ∈ s.entries := by
  cases h with
  | block b => simp [entries]
  | @node kind exits parts here _ =>
    by_cases hkind : kind = .loopBody
    · subst hkind
      obtain ⟨p, rest, rfl⟩ := List.exists_cons_of_ne_nil here.ne_nil
      simp [entries]
    · rw [entries_of_ne_loopBody (by simpa [isOfKind] using hkind)]
      exact List.mem_singleton_self _

/-- The entries of a node are first blocks of its parts. -/
theorem Fits.exists_first (h : Fits kind parts) (hv : v ∈ (Sketch.node kind exits parts).entries) :
    ∃ s ∈ parts, s.first = v := by
  by_cases hkind : kind = .loopBody
  · subst hkind
    exact mem_entries_loopBody.mp hv
  · rw [entries_of_ne_loopBody (by simpa [isOfKind] using hkind), List.mem_singleton] at hv
    obtain ⟨p, rest, rfl⟩ := List.exists_cons_of_ne_nil h.ne_nil
    exact ⟨p, List.mem_cons_self, by simp [hv]⟩

/-- What explains a transfer between parts says where it comes in. -/
theorem entry_of_explains {i j : Nat} (h : Explains view kind parts i j v) (hs : parts[j]? = some s) (hshaped : Shaped s) :
    v ∈ s.entries := by
  have hfirst : ∀ {c : Sketch}, parts[j]? = some c → view.first? c = some v → v ∈ s.entries := fun child first => by
    obtain rfl := Option.some.inj (hs.symm.trans child)
    exact Option.some.inj first ▸ hshaped.first_mem_entries
  cases h with
  | next _ _ child first => exact hfirst child first
  | arm _ _ _ child first => exact hfirst child first
  | case _ _ _ child first => exact hfirst child first
  | back _ _ child _ first => exact hfirst child first
  | continuing _ child _ first _ => exact hfirst child first
  | body _ _ child isBody inside first =>
    obtain rfl := Option.some.inj (hs.symm.trans child)
    cases s with
    | block b => cases isBody
    | node kind exits parts =>
      cases Option.some.inj isBody
      exact mem_entries_loopBody.mpr ⟨_, inside, Option.some.inj first⟩

/-- Control comes into a part from outside of the node, so at an entry of the node, or from another part. -/
theorem Closed.part (h : Closed g (.node kind exits parts)) (hs : s ∈ parts) : Closed g s := by
  obtain ⟨transfers, explainedParts⟩ := h.explained.of_node
  obtain ⟨here, shapedParts⟩ := h.shaped.of_node
  have nodup : (blocksOf parts).Nodup := by simpa using h.nodup
  have hsub : ∀ b ∈ s.blocks, b ∈ (Sketch.node kind exits parts).blocks := fun b hb => by
    rw [blocks_node]
    exact mem_blocksOf.mpr ⟨s, hs, hb⟩
  refine ⟨explainedParts s hs, shapedParts s hs, nodup_blocks nodup hs, fun b hb => h.reached b (hsub b hb), ?_⟩
  rintro v ⟨hv, hfrom⟩
  -- An entry of the node in this part is the first block of the part.
  have houter : Entered g (.node kind exits parts) v → v ∈ s.entries := fun hentered => by
    obtain ⟨p, hp, rfl⟩ := here.exists_first (h.entered v hentered)
    obtain rfl := part_unique nodup hp hs (shapedParts p hp).first_mem hv
    exact (shapedParts p hp).first_mem_entries
  rcases hfrom with hentry | ⟨u, hreached, houtside, hedge⟩
  · exact houter ⟨hsub v hv, Or.inl hentry⟩
  by_cases hu : u ∈ (Sketch.node kind exits parts).blocks
  · rw [blocks_node] at hu
    obtain ⟨q, hq, hu⟩ := mem_blocksOf.mp hu
    obtain ⟨i, hi⟩ := List.mem_iff_getElem?.mp hq
    obtain ⟨j, hj⟩ := List.mem_iff_getElem?.mp hs
    have hij : i ≠ j := by
      rintro rfl
      obtain rfl := Option.some.inj (hi.symm.trans hj)
      exact houtside hu
    have hcrosses : Crosses parts i j u v := ⟨⟨q, hi, hu, fun heq => absurd heq hij⟩, s, hj, hv⟩
    exact entry_of_explains (transfers i j u v hcrosses hedge) hj (shapedParts s hs)
  · exact houter ⟨hsub v hv, Or.inr ⟨u, hreached, hu, hedge⟩⟩

/-- Where control comes in at one block only, that block is on every path to a block inside. -/
theorem Closed.dominates (hg : g.Linked) (h : Closed g s) (hkind : s.isOfKind .loopBody = false) {b : BlockId}
    (hb : b ∈ s.blocks) : g.digraph.Dominates g.entry s.first b := by
  intro vs path
  obtain ⟨v, hv, hvs, hfrom⟩ := path.exists_entered (p := (· ∈ s.blocks)) hb
  have hentered : Entered g s v := by
    refine ⟨hvs, hfrom.imp_right ?_⟩
    rintro ⟨u, hu, houtside, hedge⟩
    exact ⟨u, hg.reached_of_path path hu, houtside, by rwa [hg.successors_digraph] at hedge⟩
  have hmem := h.entered v hentered
  rw [entries_of_ne_loopBody hkind, List.mem_singleton] at hmem
  exact hmem ▸ hv

end

end Sketch

namespace Tree

section
variable {g : FlowGraph} {before : Placement} {t : Tree} {sketch : Sketch} {unvisited : List BlockId}

theorem Built.first_eq (hg : g.Linked) (h : Built g before t sketch unvisited) : sketch.first = g.entry := by
  obtain ⟨parts, loose, hspan, -, rfl⟩ := h.rooted
  obtain ⟨s, rest, rfl, hfirst, -⟩ := (Spans.facts hg _ hspan).head
  simpa using hfirst

/-- Control comes into the whole tree at the entry, since all blocks in reach are in it. -/
theorem Built.closed (hg : g.Linked) (h : Built g before t sketch unvisited) : Closed g sketch where
  explained := h.explained hg
  shaped := h.shaped
  nodup := h.nodup
  reached _ hb := (h.mem_blocks_iff hg).mp hb
  entered := by
    rintro v ⟨-, rfl | ⟨u, hreached, houtside, -⟩⟩
    · exact h.first_eq hg ▸ h.shaped.first_mem_entries
    · exact absurd ((h.mem_blocks_iff hg).mpr hreached) houtside

theorem Inside.closed (hg : g.Linked) (h : Built g before t sketch unvisited) {id : NodeId} (hid : t.Inside id) :
    ∃ s, Draws (t.draft unvisited) (.node id) (t.depthOf id) s ∧ Closed g s :=
  hid.draws h (h.closed hg) fun _ _ _ hs _ hmem => hs.part hmem

/-- The body of a loop is in a loop, whose header dominates all that is in the loop. -/
theorem Inside.loop_dominates (hg : g.Linked) (h : Built g before t sketch unvisited) {id : NodeId} {n : Node} {b : BlockId}
    (hid : t.Inside id) (found : t.node? id = some n) (hkind : n.kind = .loopBody) (hb : t.Holds (.node id) b) :
    ∃ outer i m header, t.parent? id = some (outer, i) ∧ t.node? outer = some m ∧ m.kind = .loop ∧
      m.header? = some header ∧ g.digraph.Dominates g.entry header b := by
  cases hid with
  | root =>
    have hroot := (h.root_eq found).1
    rw [hkind] at hroot
    cases hroot
  | @child outer _ m houter foundOuter child =>
    obtain ⟨i, hi⟩ := List.mem_iff_getElem?.mp child
    obtain ⟨_, hdraws, hclosed⟩ := houter.closed hg h
    obtain ⟨parts, rfl, hparts⟩ := parts_of_draws foundOuter hdraws
    obtain ⟨part, hpart, hinner⟩ := exists_of_mem_left hparts child
    obtain ⟨bodyParts, rfl, -⟩ := parts_of_draws found hinner
    obtain ⟨hloop, header, rest, rfl⟩ := hclosed.shaped.of_node.1.eq_loop hpart (by simp [isOfKind, hkind])
    obtain ⟨_, _, hheader, -, hchildren⟩ := List.forall₂_cons_right_iff.mp hparts
    cases hheader
    refine ⟨outer, i, m, header, parent?_of_draws hdraws foundOuter hi, foundOuter, hloop, ?_, ?_⟩
    · simp [Node.header?, hloop, hchildren, Child.block?]
    · have hmem : b ∈ (Sketch.node m.kind m.exits (.block header :: rest)).blocks :=
        (holds_iff hdraws).mp (.node foundOuter child hb)
      simpa using hclosed.dominates hg (by simp [isOfKind, hloop]) hmem

end

end Tree

/-- The nodes of a tree are nested as their blocks are dominated: the first block of a node dominates every block in it,
and where the node is the body of a loop, the header of the loop does. -/
theorem nesting_follows_dominance {f : Function} {g : FlowGraph} {before : Placement} {t : Tree} {id : NodeId} {n : Node}
    {b : BlockId} (accepted : FlowGraph.build f = .ok g) (structured : (Tree.build g before).1 = .ok t)
    (found : t.node? id = some n) (inside : t.Holds (.node id) b) :
    (n.kind ≠ .loopBody → g.dominators.dominates n.firstBlock b = true) ∧
      (n.kind = .loopBody → ∃ outer i m header, t.parent? id = some (outer, i) ∧ t.node? outer = some m ∧ m.kind = .loop ∧
        m.header? = some header ∧ g.dominators.dominates header b = true) := by
  have hg := FlowGraph.build_linked accepted
  obtain ⟨sketch, unvisited, h⟩ := Tree.build_ok hg structured
  have hid : t.Inside id := h.inside (Array.getElem?_eq_some_iff.mp found).1
  obtain ⟨s, hdraws, hclosed⟩ := hid.closed hg h
  have hb : b ∈ s.blocks := (Tree.holds_iff hdraws).mp inside
  have hreached : g.Reached b := hclosed.reached b hb
  refine ⟨fun hkind => ?_, fun hkind => ?_⟩
  · obtain ⟨n', parts, found', rfl, -, hfirst, -⟩ := Tree.children_of_draws hdraws
    obtain rfl := Option.some.inj (found.symm.trans found')
    rw [FlowGraph.dominates_iff accepted, hfirst]
    exact ⟨hreached, by simpa using hclosed.dominates hg (by simpa [isOfKind] using hkind) hb⟩
  · obtain ⟨outer, i, m, header, hparent, hm, hloop, hheader, hdom⟩ := hid.loop_dominates hg h found hkind inside
    exact ⟨outer, i, m, header, hparent, hm, hloop, hheader, (FlowGraph.dominates_iff accepted).mpr ⟨hreached, hdom⟩⟩

/-- A loop whose header branches to two blocks of the body. -/
def twoEntriesSample : Function where
  name := "two_entries"
  instructions := [
    { op := .label, result := 1 }, { op := .loopMerge, operands := [.ofId 5, .ofId 4] },
    { op := .branchConditional, operands := [.ofId 9, .ofId 2, .ofId 3] },
    { op := .label, result := 2 }, { op := .branch, operands := [.ofId 4] },
    { op := .label, result := 3 }, { op := .branch, operands := [.ofId 4] },
    { op := .label, result := 4 }, { op := .branchConditional, operands := [.ofId 9, .ofId 1, .ofId 5] },
    { op := .label, result := 5 }, { op := .return }]

theorem twoEntriesSample_built : ∃ g t n m, FlowGraph.build twoEntriesSample = .ok g ∧
    (Tree.build g (.none g)).1 = .ok t ∧ t.node? 0 = some n ∧ n.kind = .loopBody ∧ n.firstBlock = 1 ∧
      n.children = [.block 1, .block 2] ∧ g.dominators.dominates 1 2 = false ∧ t.node? 1 = some m ∧
      m.kind = .continuing ∧ m.children = [.block 3] := by
  have hchecked : hasTree twoEntriesSample (fun g t => ((t.node? 0).any fun n => n.kind = .loopBody ∧ n.firstBlock = 1 ∧
      n.children = [.block 1, .block 2] ∧ g.dominators.dominates 1 2 = false) &&
        (t.node? 1).any fun m => m.kind = .continuing ∧ m.children = [.block 3]) = true := by
    cbv
  obtain ⟨g, t, hbuild, htree, htest⟩ := exists_of_hasTree hchecked
  obtain ⟨hbody, hcontinue⟩ := Bool.and_eq_true_iff.mp htest
  obtain ⟨n, found, hn⟩ := (Option.any_eq_true _ _).mp hbody
  obtain ⟨m, found', hm⟩ := (Option.any_eq_true _ _).mp hcontinue
  obtain ⟨hkind, hfirst, hchildren, hnot⟩ := of_decide_eq_true hn
  obtain ⟨hkind', hchildren'⟩ := of_decide_eq_true hm
  exact ⟨g, t, n, m, hbuild, htree, found, hkind, hfirst, hchildren, hnot, found', hkind', hchildren'⟩

/-- The first block of the body of the sample does not dominate the other one, but the header of the loop does. -/
theorem nesting_follows_dominance_twoEntries : ∃ g t n m, FlowGraph.build twoEntriesSample = .ok g ∧
    (Tree.build g (.none g)).1 = .ok t ∧ t.node? 0 = some n ∧ n.kind = .loopBody ∧
      g.dominators.dominates n.firstBlock 2 = false ∧
      (∃ outer i l header, t.parent? 0 = some (outer, i) ∧ t.node? outer = some l ∧ l.kind = .loop ∧
        l.header? = some header ∧ g.dominators.dominates header 2 = true) ∧
      t.node? 1 = some m ∧ m.kind = .continuing ∧ g.dominators.dominates m.firstBlock 3 = true := by
  obtain ⟨g, t, n, m, hbuild, htree, found, hkind, hfirst, hchildren, hnot, found', hkind', hchildren'⟩ :=
    twoEntriesSample_built
  have hbody : t.Holds (.node 0) 2 := .node found (by simp [hchildren]) (.block 2)
  have hcontinue : t.Holds (.node 1) 3 := .node found' (by simp [hchildren']) (.block 3)
  exact ⟨g, t, n, m, hbuild, htree, found, hkind, hfirst ▸ hnot,
    (nesting_follows_dominance hbuild htree found hbody).2 hkind, found', hkind',
    (nesting_follows_dominance hbuild htree found' hcontinue).1 (by simp [hkind'])⟩

end FlowTree
