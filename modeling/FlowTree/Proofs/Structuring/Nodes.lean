import FlowTree.Proofs.Structuring.Drawn

/-!
Adding a node to a draft. The node is put at the end of the table and its children are tied to it one by
one (`Ties`). Since the pieces in a draft are all different and wait for a node, none of them has a parent or
a place yet, except that a block may have had a place from the start; with that as a reason to stop, adding a
node of the right shape turns the pieces of its children into the piece of the node.
-/

namespace FlowTree

open Sketch

namespace Placement

theorem place?_setIfInBounds (p : Placement) (b : BlockId) (place? : Option Place) (b' : BlockId) :
    Placement.place? (p.setIfInBounds b place?) b' = if b = b' ∧ b < p.size then place? else p.place? b' := by
  unfold Placement.place?
  rw [Array.getElem?_setIfInBounds]
  by_cases hb : b = b'
  · subst hb
    by_cases hlt : b < p.size
    · simp [hlt]
    · simp [hlt]
  · simp [hb]

end Placement

namespace Structuring

/-- Between the drafts the children were tied to a node, each by its index. -/
structure Ties (node : NodeId) (children : List Child) (d d' : Draft) : Prop where
  size_eq : d'.nodes.size = d.nodes.size
  unvisited : d'.unvisited = d.unvisited
  places_size : d'.placement.size = d.placement.size
  nodes : ∀ (i : Nat) (id : NodeId), children[i]? = some (.node id) → ∀ n, d.nodes[id]? = some n →
    d'.nodes[id]? = some { n with parent? := some (node, i) }
  otherNodes : ∀ id, .node id ∉ children → d'.nodes[id]? = d.nodes[id]?
  blocks : ∀ (i : Nat) (b : BlockId), children[i]? = some (.block b) → b < d.placement.size →
    d'.placement.place? b = some ⟨node, i⟩
  otherBlocks : ∀ b, .block b ∉ children → d'.placement.place? b = d.placement.place? b
  fresh : ∀ b, .block b ∈ children → d.placement.place? b = none

section
variable {g : FlowGraph} {halts : Halt → Draft → Prop} {d d' : Draft}

theorem Ties.refl (node : NodeId) (d : Draft) : Ties node [] d d where
  size_eq := rfl
  unvisited := rfl
  places_size := rfl
  nodes := by simp
  otherNodes _ _ := rfl
  blocks := by simp
  otherBlocks _ _ := rfl
  fresh := by simp

theorem Ties.node {node id : NodeId} {done : List Child} (h : Ties node done d d') (hc : .node id ∉ done) {n : Node}
    (hn : d.nodes[id]? = some n) : Ties node (done ++ [.node id]) d
      { d' with nodes := d'.nodes.setIfInBounds id { n with parent? := some (node, done.length) } } where
  size_eq := by simpa using h.size_eq
  unvisited := h.unvisited
  places_size := h.places_size
  nodes i id' hi m hm := by
    have hlt : id < d'.nodes.size := h.size_eq ▸ (Array.getElem?_eq_some_iff.mp hn).1
    rw [Array.getElem?_setIfInBounds]
    rcases getElem?_concat.mp hi with hi | ⟨rfl, heq⟩
    · have hne : id ≠ id' := fun heq => hc (heq ▸ List.mem_of_getElem? hi)
      simpa [hne] using h.nodes i id' hi m hm
    · cases heq
      rw [hn] at hm
      cases hm
      simp [hlt]
  otherNodes id' hid' := by
    have hne : id ≠ id' ∧ Child.node id' ∉ done := by simpa [eq_comm, and_comm] using hid'
    simpa [Array.getElem?_setIfInBounds, hne.1] using h.otherNodes id' hne.2
  blocks i b hi := by
    rcases getElem?_concat.mp hi with hi | ⟨-, heq⟩
    · exact h.blocks i b hi
    · cases heq
  otherBlocks b hb := h.otherBlocks b fun hb' => hb (List.mem_append_left _ hb')
  fresh b hb := h.fresh b (by simpa using hb)

theorem Ties.block {node : NodeId} {done : List Child} {b : BlockId} (h : Ties node done d d') (hc : .block b ∉ done)
    (hplace : d.placement.place? b = none) : Ties node (done ++ [.block b]) d
      { d' with placement := d'.placement.setIfInBounds b (some ⟨node, done.length⟩) } where
  size_eq := h.size_eq
  unvisited := h.unvisited
  places_size := by simpa using h.places_size
  nodes i id hi := by
    rcases getElem?_concat.mp hi with hi | ⟨-, heq⟩
    · exact h.nodes i id hi
    · cases heq
  otherNodes id hid := h.otherNodes id fun hid' => hid (List.mem_append_left _ hid')
  blocks i b' hi hb' := by
    rw [Placement.place?_setIfInBounds]
    rcases getElem?_concat.mp hi with hi | ⟨rfl, heq⟩
    · have hne : b ≠ b' := fun heq => hc (heq ▸ List.mem_of_getElem? hi)
      simpa [hne] using h.blocks i b' hi hb'
    · cases heq
      rw [if_pos ⟨rfl, h.places_size ▸ hb'⟩]
  otherBlocks b' hb' := by
    have hne : b ≠ b' ∧ Child.block b' ∉ done := by simpa [eq_comm, and_comm] using hb'
    rw [Placement.place?_setIfInBounds, if_neg fun hand => hne.1 hand.1]
    exact h.otherBlocks b' hne.2
  fresh b' hb' := by
    rcases List.mem_append.mp hb' with hb' | hb'
    · exact h.fresh b' hb'
    · cases List.mem_singleton.mp hb'
      exact hplace

/-- One more child that is not among those before. -/
theorem tieChild_ends {node : NodeId} {done : List Child} {c : Child} (h : Ties node done d d') (hc : c ∉ done)
    (hnode : ∀ id, c = .node id → ∃ n, d.nodes[id]? = some n ∧ n.parent? = none)
    (hblock : ∀ b, c = .block b → b < g.size ∧
      ∀ place, d.placement.place? b = some place → ∀ f d', halts (.fault f) d') :
    Ends (tieChild g node (c, done.length)) d' (fun _ d'' => Ties node (done ++ [c]) d d'') halts := by
  cases c with
  | node id =>
    obtain ⟨n, hn, hparent⟩ := hnode id rfl
    refine Ends.bind (Ends.get (Ends.bind (Ends.item ((h.otherNodes id hc).trans hn) ?_)))
    simp only [hparent]
    exact Ends.set (h.node hc hn)
  | block b =>
    obtain ⟨hlt, hplaced⟩ := hblock b rfl
    obtain ⟨block, found⟩ := FlowGraph.block?_eq_some_of_lt hlt
    have hsame : d'.placement.place? b = d.placement.place? b := h.otherBlocks b hc
    refine Ends.bind (Ends.get (Ends.bind (Ends.item found ?_)))
    cases hplace : d.placement.place? b with
    | some place =>
      simp only [Placement.put, hsame, hplace]
      exact Ends.fail (hplaced place hplace _ _)
    | none =>
      simp only [Placement.put, hsame, hplace]
      exact Ends.set (h.block hc hplace)

theorem tieChildren_ends {node : NodeId} {children : List Child} (hnodup : children.Nodup)
    (hnode : ∀ id, .node id ∈ children → ∃ n, d.nodes[id]? = some n ∧ n.parent? = none)
    (hblock : ∀ b, .block b ∈ children → b < g.size ∧
      ∀ place, d.placement.place? b = some place → ∀ f d', halts (.fault f) d') :
    Ends (children.zipIdx.forM (tieChild g node)) d (fun _ d' => Ties node children d d') halts := by
  refine (Ends.forM (I := fun done d' => Ties node (done.map (·.1)) d d') (Ties.refl node d)
    fun done item rest d' hitems h => ?_).imp fun _ d' h => ?_
  · -- The items are the children with their indices, so an item's index is the number of those before it.
    have hchildren : children = done.map (·.1) ++ item.1 :: rest.map (·.1) := by
      have := congrArg (List.map Prod.fst) hitems
      rwa [List.zipIdx_map_fst, List.map_append, List.map_cons] at this
    have hindex : item = (item.1, (done.map (·.1)).length) := by
      have hget : children.zipIdx[done.length]? = some item := by simp [hitems]
      rw [List.getElem?_zipIdx] at hget
      obtain ⟨c, -, rfl⟩ := Option.map_eq_some_iff.mp hget
      simp
    have hmem : item.1 ∈ children := by simp [hchildren]
    have hnotin : item.1 ∉ done.map (·.1) := fun hin => by
      rw [hchildren, List.nodup_append'] at hnodup
      exact hnodup.2.2 hin List.mem_cons_self
    rw [hindex, List.map_append, List.map_singleton]
    exact tieChild_ends h hnotin (fun id hid => hnode id (hid ▸ hmem)) fun b hb => hblock b (hb ▸ hmem)
  · simpa [List.zipIdx_map_fst] using h

/-! ### Nodes -/

theorem firstBlock_ends {c : Child} {depth : Nat} {s : Sketch} {ok : BlockId → Draft → Prop} (hd : Draws d c depth s)
    (h : ok s.first d) : Ends (firstBlock c) d ok halts := by
  cases c with
  | block b =>
    rw [hd.eq_block, first_block] at h
    exact Ends.pure h
  | node id =>
    obtain ⟨n, hn, hfirst⟩ := hd.found
    refine Ends.bind (Ends.get (Ends.bind (Ends.item hn (Ends.pure ?_))))
    exact hfirst ▸ h

/-- A new node leaves those before it where they are. -/
theorem getElem?_push_of_some {nodes : Array Node} {id : NodeId} {n : Node} (h : nodes[id]? = some n) (new : Node) :
    (nodes.push new)[id]? = some n := by
  have hlt : id < nodes.size := (Array.getElem?_eq_some_iff.mp h).1
  rw [Array.getElem?_push, if_neg (Nat.ne_of_lt hlt), h]

/-- Ties between pieces and a new node keep what is drawn. -/
theorem Ties.keeps {d₀ : Draft} {pieces rest : List Piece} {new : Node} (h : Drawn d₀ d (pieces ++ rest))
    (ht : Ties d.nodes.size (pieces.map Piece.child) { d with nodes := d.nodes.push new } d') : Keeps d d' where
  node id n hn := by
    have hn' := getElem?_push_of_some hn new
    by_cases hmem : Child.node id ∈ pieces.map Piece.child
    · obtain ⟨i, hi⟩ := List.mem_iff_getElem?.mp hmem
      obtain ⟨p, hp, hc⟩ := List.mem_map.mp hmem
      obtain ⟨-, m, hm, hparent⟩ := h.waiting p (List.mem_append_left _ hp) id hc
      rw [hn] at hm
      cases hm
      exact ⟨_, ht.nodes i id hi n hn', by simp [hparent]⟩
    · exact ⟨n.parent?, (ht.otherNodes id hmem).trans hn', fun _ hp => hp⟩
  place b p hp := by
    have hb : Child.block b ∉ pieces.map Piece.child := fun hb => by
      have := ht.fresh b hb
      rw [hp] at this
      cases this
    exact (ht.otherBlocks b hb).trans hp
  places_size := ht.places_size

section Tied
variable {d₀ : Draft} {pieces rest : List Piece} {kind : Kind} {depth : Nat} {exits : BlockExits}
  (h : Drawn d₀ d (pieces ++ rest)) (ht : Ties d.nodes.size (pieces.map Piece.child) ⟨d.nodes.push
    ⟨kind, pieces.map Piece.child, depth, firstOf (pieces.map Piece.sketch), none, exits⟩, d.unvisited, d.placement⟩ d')

include ht in
theorem Ties.older {id : NodeId} (hid : id < d.nodes.size) (hmem : .node id ∉ pieces.map Piece.child) :
    d'.nodes[id]? = d.nodes[id]? := by
  rw [ht.otherNodes _ hmem, Array.getElem?_push, if_neg (Nat.ne_of_lt hid)]

include h ht

theorem Ties.found : d'.nodes[d.nodes.size]? =
    some ⟨kind, pieces.map Piece.child, depth, firstOf (pieces.map Piece.sketch), none, exits⟩ := by
  refine (ht.otherNodes d.nodes.size fun hmem => ?_).trans Array.getElem?_push_size
  obtain ⟨p, hp, hc⟩ := List.mem_map.mp hmem
  exact Nat.lt_irrefl _ (h.child_lt (List.mem_append_left _ hp) hc)

/-- The new node looks as its pieces did. -/
theorem Ties.draws (hdepth : ∀ p ∈ pieces, p.depth = depth + 1) :
    Draws d' (.node d.nodes.size) depth (.node kind exits (pieces.map Piece.sketch)) := by
  refine .node (Ties.found h ht) rfl rfl (by simp) (fun i c hc => ?_) fun i c s hc hs => ?_
  · obtain ⟨p, hp, rfl⟩ := List.mem_map.mp (List.mem_of_getElem? hc)
    cases hchild : p.child with
    | node id =>
      have hp' := List.mem_append_left rest hp
      obtain ⟨-, n, hn, -⟩ := h.waiting p hp' id hchild
      exact ⟨h.child_lt hp' hchild, _, ht.nodes i id (hchild ▸ hc) n (getElem?_push_of_some hn _), rfl⟩
    | block b => exact fun hb => ht.blocks i b (hchild ▸ hc) (ht.places_size ▸ hb)
  · rw [List.getElem?_map] at hc hs
    obtain ⟨p, hp, rfl⟩ := Option.map_eq_some_iff.mp hc
    rw [hp] at hs
    cases hs
    have hp := List.mem_of_getElem? hp
    exact hdepth p hp ▸ (h.draws p (List.mem_append_left _ hp)).keep (Ties.keeps h ht)

/-- The blocks of the pieces had no place when the pieces were begun. -/
theorem Ties.fresh_blocks (hready : Ready g halts d₀) {b : BlockId} (hb : b ∈ blocksOf (pieces.map Piece.sketch)) :
    d₀.placement.place? b = none := by
  obtain ⟨s, hs, hb⟩ := Sketch.mem_blocksOf.mp hb
  obtain ⟨p, hp, rfl⟩ := List.mem_map.mp hs
  have hp' := List.mem_append_left rest hp
  cases hchild : p.child with
  | node id =>
    refine h.fresh b (List.mem_flatMap.mpr ⟨p, hp', ?_⟩)
    simpa [Piece.inner, hchild] using hb
  | block b' =>
    obtain rfl : b = b' := by simpa [h.sketch_eq hp' hchild] using hb
    have hnone := ht.fresh b (hchild ▸ List.mem_map_of_mem hp)
    exact (h.place?_eq hready hp' hchild).symm.trans hnone

/-- The pieces that were tied to a new node are one piece now. -/
theorem Ties.drawn (hready : Ready g halts d₀) (hdepth : ∀ p ∈ pieces, p.depth = depth + 1) :
    Drawn d₀ d' (⟨.node d.nodes.size, depth, .node kind exits (pieces.map Piece.sketch)⟩ :: rest) := by
  have hsize : d'.nodes.size = d.nodes.size + 1 := by simpa using ht.size_eq
  have hdistinct := h.distinct
  rw [List.map_append, List.nodup_append'] at hdistinct
  refine ⟨hsize ▸ Nat.le_succ_of_le h.size_le, fun id hid => ?_, ?_, fun p hp => ?_, fun p hp id hc => ?_,
    fun id hle hid => ?_, ?_, ht.places_size.trans h.places_size, fun b hb => ?_, fun b hb => ?_⟩
  · have hmem : .node id ∉ pieces.map Piece.child := fun hmem => by
      obtain ⟨p, hp, hc⟩ := List.mem_map.mp hmem
      exact absurd hid (Nat.not_lt.mpr (h.waiting p (List.mem_append_left _ hp) id hc).1)
    exact (Ties.older ht (Nat.lt_of_lt_of_le hid h.size_le) hmem).trans (h.older id hid)
  · rw [ht.unvisited]
    simpa using h.visited
  · rcases List.mem_cons.mp hp with rfl | hp
    · exact Ties.draws h ht hdepth
    · exact (h.draws p (List.mem_append_right _ hp)).keep (Ties.keeps h ht)
  · rcases List.mem_cons.mp hp with rfl | hp
    · cases hc
      exact ⟨h.size_le, _, Ties.found h ht, rfl⟩
    · have hp' := List.mem_append_right pieces hp
      obtain ⟨hle, n, hn, hparent⟩ := h.waiting p hp' id hc
      have hmem : .node id ∉ pieces.map Piece.child := fun hmem => hdistinct.2.2 hmem (hc ▸ List.mem_map_of_mem hp)
      exact ⟨hle, n, (Ties.older ht (h.child_lt hp' hc) hmem).trans hn, hparent⟩
  · -- The nodes that were pieces are now in the new node, which is a piece itself.
    rcases Nat.lt_or_eq_of_le (Nat.le_of_lt_succ (hsize ▸ hid)) with hid | rfl
    · rcases h.held id hle hid with ⟨p, hp, hc⟩ | hheld
      · rcases List.mem_append.mp hp with hp | hp
        · exact Or.inr ⟨d.nodes.size, _, hid, Ties.found h ht, hc ▸ List.mem_map_of_mem hp⟩
        · exact Or.inl ⟨p, List.mem_cons_of_mem _ hp, hc⟩
      · exact Or.inr (hheld.keep (Ties.keeps h ht))
    · exact Or.inl ⟨_, List.mem_cons_self, rfl⟩
  · refine List.nodup_cons.mpr ⟨fun hmem => ?_, hdistinct.2.1⟩
    obtain ⟨p, hp, hc⟩ := List.mem_map.mp hmem
    exact Nat.lt_irrefl _ (h.child_lt (List.mem_append_right _ hp) hc)
  · -- A block that is in no piece now was in none before, and is not among the children.
    have hb : b ∉ blocksOf (pieces.map Piece.sketch) ∧ b ∉ rest.flatMap Piece.inner := by
      simpa [Piece.inner] using hb
    have hchild : .block b ∉ pieces.map Piece.child := fun hmem => by
      obtain ⟨p, hp, hc⟩ := List.mem_map.mp hmem
      have hsketch := h.sketch_eq (List.mem_append_left _ hp) hc
      exact hb.1 (Sketch.mem_blocksOf.mpr ⟨_, List.mem_map_of_mem hp, by simp [hsketch]⟩)
    refine (ht.otherBlocks b hchild).trans (h.frame b ?_)
    rw [List.flatMap_append, List.mem_append]
    exact fun hor => hor.elim (fun hmem => hb.1 (mem_blocksOf_of_mem_inner hmem)) hb.2
  · have hb : b ∈ blocksOf (pieces.map Piece.sketch) ∨ b ∈ rest.flatMap Piece.inner := by
      simpa [Piece.inner] using hb
    rcases hb with hb | hb
    · exact Ties.fresh_blocks h ht hready hb
    · exact h.fresh b (by simp [hb])

end Tied

/-- Adding a node of the right shape turns the pieces of its children into one. -/
theorem addNode_ends (kind : Kind) (depth : Nat) (exits : BlockExits) {d₀ : Draft} {pieces rest : List Piece}
    (hready : Ready g halts d₀) (h : Drawn d₀ d (pieces ++ rest)) (hne : pieces ≠ [])
    (hshape : shapeFault? kind (pieces.map Piece.child) (fun id => (d.nodes[id]?).map (·.kind)) = none)
    (hdepth : ∀ p ∈ pieces, p.depth = depth + 1) :
    Ends (addNode g kind (pieces.map Piece.child) depth exits) d
      (fun id d' => Drawn d₀ d' (⟨.node id, depth, .node kind exits (pieces.map Piece.sketch)⟩ :: rest)) halts := by
  have hpieces : ∀ p ∈ pieces, p ∈ pieces ++ rest := fun p hp => List.mem_append_left _ hp
  obtain ⟨p, ps, hcons⟩ := List.exists_cons_of_ne_nil hne
  have hfirst : p ∈ pieces := hcons ▸ List.mem_cons_self
  refine Ends.bind (Ends.get ?_)
  simp only [hshape]
  refine Ends.bind (Ends.item (a := p.child) (by simp [hcons]) (Ends.bind ?_))
  refine firstBlock_ends (h.draws p (hpieces p hfirst)) (Ends.bind (Ends.set (Ends.bind ?_)))
  refine (tieChildren_ends ?_ (fun id hid => ?_) fun b hb => ?_).imp fun _ d' ht => Ends.pure ?_
  · exact (List.nodup_append'.mp (List.map_append ▸ h.distinct)).1
  · obtain ⟨q, hq, hc⟩ := List.mem_map.mp hid
    obtain ⟨-, n, hn, hparent⟩ := h.waiting q (hpieces q hq) id hc
    exact ⟨n, getElem?_push_of_some hn _, hparent⟩
  · obtain ⟨q, hq, hc⟩ := List.mem_map.mp hb
    have hmem := h.mem_unvisited.mpr (Or.inl (h.mem_blocksOf (hpieces q hq) hc))
    refine ⟨hready.inRange b hmem, fun place hplace => hready.unplaced b hmem place ?_⟩
    exact (h.place?_eq hready (hpieces q hq) hc).symm.trans hplace
  · refine Ties.drawn h ?_ hready hdepth
    rwa [show firstOf (pieces.map Piece.sketch) = p.sketch.first by simp [hcons]]

end

end Structuring
end FlowTree
