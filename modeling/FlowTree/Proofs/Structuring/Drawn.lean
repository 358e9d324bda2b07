import FlowTree.Proofs.Structuring.Ends
import FlowTree.Proofs.Tree.Sketch

/-!
Drawing a tree into a draft. While a construct is structured, the children that it will have stand in the
draft as pieces: they are complete but not yet in a node. `Drawn d d' pieces` says what happened between two
drafts in terms of the pieces that came out of it. Such facts are put one behind the other (`Drawn.append`),
and adding a node turns some of the pieces into one (`addNode_ends`). Nodes from before are left alone, so
what was drawn earlier stays as it was.
-/

namespace FlowTree

open Sketch

/-- A child that is drawn and waits for the node that it goes into, with the depth that it stands at. -/
structure Piece where
  child : Child
  depth : Nat
  sketch : Sketch

/-- A block by itself. -/
def Piece.block (b : BlockId) (depth : Nat) : Piece := ⟨.block b, depth, .block b⟩

/-- The blocks that have a place already since they are in a node. -/
def Piece.inner (p : Piece) : List BlockId :=
  match p.child with
  | .node _ => p.sketch.blocks
  | .block _ => []

namespace Structuring

/-- The child at index `i` of a node knows that it is there. -/
def Tied (d : Draft) (id : NodeId) (i : Nat) : Child → Prop
  | .node id' => id' < id ∧ ∃ n, d.nodes[id']? = some n ∧ n.parent? = some (id, i)
  | .block b => b < d.placement.size → d.placement.place? b = some ⟨id, i⟩

/-- The child stands in the draft at the given depth and looks like the sketch. -/
inductive Draws (d : Draft) : Child → Nat → Sketch → Prop
  | block (b : BlockId) (depth : Nat) : Draws d (.block b) depth (.block b)
  | node {id : NodeId} {n : Node} {depth : Nat} {parts : List Sketch} (found : d.nodes[id]? = some n)
    (depth_eq : n.depth = depth) (first_eq : n.firstBlock = firstOf parts)
    (length_eq : n.children.length = parts.length) (tied : ∀ i c, n.children[i]? = some c → Tied d id i c)
    (inside : ∀ (i : Nat) (c : Child) (s : Sketch), n.children[i]? = some c → parts[i]? = some s →
      Draws d c (depth + 1) s) :
    Draws d (.node id) depth (.node n.kind n.exits parts)

/-- Nodes get a parent at most once and else stay as they are, and places are kept. -/
structure Keeps (d d' : Draft) : Prop where
  node : ∀ (id : NodeId) (n : Node), d.nodes[id]? = some n → ∃ parent?, d'.nodes[id]? = some { n with parent? } ∧
    ∀ p, n.parent? = some p → parent? = some p
  place : ∀ b p, d.placement.place? b = some p → d'.placement.place? b = some p
  places_size : d'.placement.size = d.placement.size

theorem Tied.keep {d d' : Draft} (h : Keeps d d') {id : NodeId} {i : Nat} {c : Child} (ht : Tied d id i c) :
    Tied d' id i c := by
  cases c with
  | node id' =>
    obtain ⟨hlt, n, hn, hparent⟩ := ht
    obtain ⟨parent?, hn', hkeep⟩ := h.node id' n hn
    exact ⟨hlt, _, hn', hkeep _ hparent⟩
  | block b => exact fun hb => h.place b _ (ht (h.places_size ▸ hb))

theorem Draws.keep {d d' : Draft} (h : Keeps d d') {c : Child} {depth : Nat} {s : Sketch} (hd : Draws d c depth s) :
    Draws d' c depth s := by
  induction hd with
  | block b depth => exact .block b depth
  | @node id n depth parts found depth_eq first_eq length_eq tied _ ih =>
    obtain ⟨parent?, hn', -⟩ := h.node id n found
    exact .node (n := { n with parent? }) hn' depth_eq first_eq length_eq (fun i c hc => (tied i c hc).keep h) ih

/-- What is drawn at a block is the block. -/
theorem Draws.eq_block {d : Draft} {b : BlockId} {depth : Nat} {s : Sketch} (h : Draws d (.block b) depth s) :
    s = .block b := by
  cases h
  rfl

/-- The node that is drawn stands in the table. -/
theorem Draws.found {d : Draft} {id : NodeId} {depth : Nat} {s : Sketch} (h : Draws d (.node id) depth s) :
    ∃ n, d.nodes[id]? = some n ∧ n.firstBlock = s.first := by
  cases h with
  | node found _ first_eq => exact ⟨_, found, by simpa using first_eq⟩

/-- The node is a child of a newer one. -/
def Held (d : Draft) (id : NodeId) : Prop := ∃ id' n, id < id' ∧ d.nodes[id']? = some n ∧ .node id ∈ n.children

theorem Held.keep {d d' : Draft} (h : Keeps d d') {id : NodeId} (hd : Held d id) : Held d' id := by
  obtain ⟨id', n, hlt, hn, hmem⟩ := hd
  obtain ⟨parent?, hn', -⟩ := h.node id' n hn
  exact ⟨id', _, hlt, hn', hmem⟩

/-- From the one draft to the other the pieces were drawn, and nothing else changed. -/
structure Drawn (d d' : Draft) (pieces : List Piece) : Prop where
  size_le : d.nodes.size ≤ d'.nodes.size
  older : ∀ id, id < d.nodes.size → d'.nodes[id]? = d.nodes[id]?
  visited : d.unvisited.Perm (blocksOf (pieces.map Piece.sketch) ++ d'.unvisited)
  draws : ∀ p ∈ pieces, Draws d' p.child p.depth p.sketch
  waiting : ∀ p ∈ pieces, ∀ id, p.child = .node id →
    d.nodes.size ≤ id ∧ ∃ n, d'.nodes[id]? = some n ∧ n.parent? = none
  held : ∀ id, d.nodes.size ≤ id → id < d'.nodes.size → (∃ p ∈ pieces, p.child = .node id) ∨ Held d' id
  distinct : (pieces.map Piece.child).Nodup
  places_size : d'.placement.size = d.placement.size
  frame : ∀ b, b ∉ pieces.flatMap Piece.inner → d'.placement.place? b = d.placement.place? b
  fresh : ∀ b ∈ pieces.flatMap Piece.inner, d.placement.place? b = none

/-- A draft from which structuring can go on: the blocks that are not visited are blocks of the graph, and
that one of them has a place already is a reason to stop. -/
structure Ready (g : FlowGraph) (halts : Halt → Draft → Prop) (d : Draft) : Prop where
  nodup : d.unvisited.Nodup
  inRange : ∀ b ∈ d.unvisited, b < g.size
  unplaced : ∀ b ∈ d.unvisited, ∀ place, d.placement.place? b = some place → ∀ f d', halts (.fault f) d'

/-! ### One piece after the other -/

theorem mem_blocksOf_of_mem_inner {pieces : List Piece} {b : BlockId} (h : b ∈ pieces.flatMap Piece.inner) :
    b ∈ blocksOf (pieces.map Piece.sketch) := by
  obtain ⟨p, hp, hb⟩ := List.mem_flatMap.mp h
  refine mem_blocksOf.mpr ⟨p.sketch, List.mem_map_of_mem hp, ?_⟩
  unfold Piece.inner at hb
  split at hb
  · exact hb
  · cases hb

section
variable {g : FlowGraph} {halts : Halt → Draft → Prop} {d d' d'' : Draft} {xs ys pieces : List Piece}

theorem Drawn.refl (d : Draft) : Drawn d d [] where
  size_le := Nat.le_refl _
  older _ _ := rfl
  visited := by simp
  draws := by simp
  waiting := by simp
  held id hle hlt := absurd hlt (Nat.not_lt.mpr hle)
  distinct := by simp
  places_size := rfl
  frame _ _ := rfl
  fresh := by simp

theorem Drawn.child_lt (h : Drawn d d' pieces) {p : Piece} (hp : p ∈ pieces) {id : NodeId} (hc : p.child = .node id) :
    id < d'.nodes.size := by
  obtain ⟨-, n, hn, -⟩ := h.waiting p hp id hc
  exact (Array.getElem?_eq_some_iff.mp hn).1

theorem Drawn.keeps (h : Drawn d d' pieces) : Keeps d d' where
  node id n hn := by
    have hlt : id < d.nodes.size := (Array.getElem?_eq_some_iff.mp hn).1
    exact ⟨n.parent?, (h.older id hlt).trans hn, fun _ hp => hp⟩
  place b p hp := by
    have hb : b ∉ pieces.flatMap Piece.inner := fun hb => by
      rw [h.fresh b hb] at hp
      cases hp
    exact (h.frame b hb).trans hp
  places_size := h.places_size

theorem Drawn.perm (h : Drawn d d' xs) (hperm : xs.Perm ys) : Drawn d d' ys where
  size_le := h.size_le
  older := h.older
  visited := by
    refine h.visited.trans (List.Perm.append_right _ ?_)
    rw [blocksOf_eq_flatMap, blocksOf_eq_flatMap]
    exact (hperm.map Piece.sketch).flatMap_right _
  draws p hp := h.draws p (hperm.mem_iff.mpr hp)
  waiting p hp := h.waiting p (hperm.mem_iff.mpr hp)
  held id hle hlt := by
    rcases h.held id hle hlt with ⟨p, hp, hc⟩ | hheld
    · exact Or.inl ⟨p, hperm.mem_iff.mp hp, hc⟩
    · exact Or.inr hheld
  distinct := (hperm.map _).nodup_iff.mp h.distinct
  places_size := h.places_size
  frame b hb := h.frame b fun hb' => hb ((hperm.flatMap_right Piece.inner).mem_iff.mp hb')
  fresh b hb := h.fresh b ((hperm.flatMap_right Piece.inner).mem_iff.mpr hb)

theorem Drawn.mem_unvisited (h : Drawn d d' pieces) {b : BlockId} :
    b ∈ d.unvisited ↔ b ∈ blocksOf (pieces.map Piece.sketch) ∨ b ∈ d'.unvisited := by
  rw [h.visited.mem_iff, List.mem_append]

/-- The blocks of the pieces and those that are still not visited are all different. -/
theorem Drawn.nodup (h : Drawn d d' pieces) (hready : Ready g halts d) :
    (blocksOf (pieces.map Piece.sketch)).Nodup ∧ d'.unvisited.Nodup ∧
      ∀ b ∈ blocksOf (pieces.map Piece.sketch), b ∉ d'.unvisited := by
  have := h.visited.nodup_iff.mp hready.nodup
  rw [List.nodup_append'] at this
  exact this

/-- A piece that is a block has the block. -/
theorem Drawn.sketch_eq (h : Drawn d d' pieces) {p : Piece} (hp : p ∈ pieces) {b : BlockId} (hc : p.child = .block b) :
    p.sketch = .block b := by
  have := h.draws p hp
  rw [hc] at this
  exact this.eq_block

theorem Drawn.mem_blocksOf (h : Drawn d d' pieces) {p : Piece} (hp : p ∈ pieces) {b : BlockId}
    (hc : p.child = .block b) : b ∈ blocksOf (pieces.map Piece.sketch) :=
  Sketch.mem_blocksOf.mpr ⟨p.sketch, List.mem_map_of_mem hp, by simp [h.sketch_eq hp hc]⟩

/-- A block that is a piece has not been given a place. -/
theorem Drawn.place?_eq (h : Drawn d d' pieces) (hready : Ready g halts d) {p : Piece} (hp : p ∈ pieces) {b : BlockId}
    (hc : p.child = .block b) : d'.placement.place? b = d.placement.place? b := by
  refine h.frame b fun hinner => ?_
  obtain ⟨q, hq, hb⟩ := List.mem_flatMap.mp hinner
  unfold Piece.inner at hb
  split at hb
  · rename_i id hid
    -- The block would be in two pieces, and they are different since only one is a node.
    have hsame : q.sketch = p.sketch := part_unique (h.nodup hready).1 (List.mem_map_of_mem hq) (List.mem_map_of_mem hp)
      hb (by simp [h.sketch_eq hp hc])
    have := h.draws q hq
    rw [hid, hsame, h.sketch_eq hp hc] at this
    cases this
  · cases hb

theorem Drawn.ready (h : Drawn d d' pieces) (hready : Ready g halts d) : Ready g halts d' where
  nodup := (h.nodup hready).2.1
  inRange b hb := hready.inRange b (h.mem_unvisited.mpr (Or.inr hb))
  unplaced b hb place hplace := by
    have hinner : b ∉ pieces.flatMap Piece.inner := fun hb' =>
      (h.nodup hready).2.2 b (mem_blocksOf_of_mem_inner hb') hb
    exact hready.unplaced b (h.mem_unvisited.mpr (Or.inr hb)) place ((h.frame b hinner).symm.trans hplace)

theorem Drawn.append (h : Drawn d d' xs) (h' : Drawn d' d'' ys) (hready : Ready g halts d) :
    Drawn d d'' (xs ++ ys) where
  size_le := Nat.le_trans h.size_le h'.size_le
  older id hid := (h'.older id (Nat.lt_of_lt_of_le hid h.size_le)).trans (h.older id hid)
  visited := by
    rw [List.map_append, blocksOf_append, List.append_assoc]
    exact h.visited.trans (List.Perm.append_left _ h'.visited)
  draws p hp := by
    rcases List.mem_append.mp hp with hp | hp
    · exact (h.draws p hp).keep h'.keeps
    · exact h'.draws p hp
  waiting p hp id hid := by
    rcases List.mem_append.mp hp with hp | hp
    · obtain ⟨hle, n, hn, hparent⟩ := h.waiting p hp id hid
      exact ⟨hle, n, (h'.older id (h.child_lt hp hid)).trans hn, hparent⟩
    · obtain ⟨hle, hn⟩ := h'.waiting p hp id hid
      exact ⟨Nat.le_trans h.size_le hle, hn⟩
  held id hle hlt := by
    by_cases hid : id < d'.nodes.size
    · rcases h.held id hle hid with ⟨p, hp, hc⟩ | hheld
      · exact Or.inl ⟨p, List.mem_append_left _ hp, hc⟩
      · exact Or.inr (hheld.keep h'.keeps)
    · rcases h'.held id (Nat.le_of_not_lt hid) hlt with ⟨p, hp, hc⟩ | hheld
      · exact Or.inl ⟨p, List.mem_append_right _ hp, hc⟩
      · exact Or.inr hheld
  distinct := by
    rw [List.map_append, List.nodup_append']
    refine ⟨h.distinct, h'.distinct, fun c hx hy => ?_⟩
    obtain ⟨p, hp, rfl⟩ := List.mem_map.mp hx
    obtain ⟨q, hq, heq⟩ := List.mem_map.mp hy
    cases hc : p.child with
    | node id =>
      -- The nodes of the later pieces are newer than those of the earlier ones.
      exact absurd (h.child_lt hp hc) (Nat.not_lt.mpr (h'.waiting q hq id (heq.trans hc)).1)
    | block b =>
      exact (h.nodup hready).2.2 b (h.mem_blocksOf hp hc)
        (h'.mem_unvisited.mpr (Or.inl (h'.mem_blocksOf hq (heq.trans hc))))
  places_size := h'.places_size.trans h.places_size
  frame b hb := by
    rw [List.flatMap_append, List.mem_append, not_or] at hb
    exact (h'.frame b hb.2).trans (h.frame b hb.1)
  fresh b hb := by
    rw [List.flatMap_append, List.mem_append] at hb
    rcases hb with hb | hb
    · exact h.fresh b hb
    · have hlater : b ∈ d'.unvisited := h'.mem_unvisited.mpr (Or.inl (mem_blocksOf_of_mem_inner hb))
      have hearlier : b ∉ xs.flatMap Piece.inner := fun hb' =>
        (h.nodup hready).2.2 b (mem_blocksOf_of_mem_inner hb') hlater
      exact (h.frame b hearlier).symm.trans (h'.fresh b hb)

end

end Structuring
end FlowTree
