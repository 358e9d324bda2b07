import FlowTree.Proofs.Structuring.Places
import FlowTree.Proofs.Tree.Coverage

/-!
Places before and after a tree is built. A build that rejects the control flow leaves the places as they were; one that
gives a tree gives places to the blocks of the tree and to no other block, and those had none. From then on a build stops
at the first block that it would place.
-/

namespace FlowTree

open Sketch Structuring

namespace Tree

section
variable {g : FlowGraph} {before : Placement} {t : Tree}

theorem build_of_ok (h : (Tree.build g before).1 = .ok t) : (Tree.build g before).2 = t.places ∧
    ∃ unvisited, Structuring.root g (blank g before) = .ok t.root (t.draft unvisited) := by
  unfold Tree.build at h ⊢
  unfold blank
  split at h <;> rename_i hroot
  · cases h
    rw [hroot]
    exact ⟨rfl, _, rfl⟩
  · cases h
  · cases h

/-- A rejected build takes back the places that it gave. -/
theorem places_of_rejected {r : Rejection} (h : (Tree.build g before).1 = .error (.rejected r)) :
    (Tree.build g before).2 = before := by
  have hrestores := (restores_stepwise g before).root (blank g before) rfl
  unfold Ends blank at hrestores
  unfold Tree.build at h ⊢
  split at h <;> rename_i hroot
  · cases h
  · rw [hroot] at hrestores
    rcases hrestores with ⟨f, hf⟩ | hdiscard
    · cases hf
    · exact hdiscard
  · cases h

/-- With the places of a tree that was built before, building stops at a block that has one. -/
theorem build_again (hsize : before.size = g.size) (h : (Tree.build g before).1 = .ok t) (hne : t.places ≠ before)
    {later : Placement} (hlater : later.Extends t.places) :
    ∃ b place, later.place? b = some place ∧
      Tree.build g later = (.error (.fault (.alreadyPlaced (g.blockName b) place)), later) := by
  obtain ⟨-, unvisited, hroot⟩ := build_of_ok h
  have hrepeated := (repeats_stepwise g).root (blank g before) t.root (t.draft unvisited) hsize hroot
  rcases hrepeated.again later hlater with ⟨b, place, d, hplace, hd, hblocked⟩ | ⟨hsame, -⟩
  · refine ⟨b, place, hplace, ?_⟩
    unfold Tree.build
    unfold blank at hblocked
    rw [hblocked]
    exact congrArg _ hd
  · exact absurd hsame hne

theorem Built.lt_of_mem {sketch : Sketch} {unvisited : List BlockId} (h : Built g before t sketch unvisited) {b : BlockId}
    (hb : b ∈ sketch.blocks) : b < g.size :=
  List.mem_range.mp (h.drawn.mem_unvisited.mpr (Or.inl (by simpa using hb)))

end

end Tree

/-- Building a tree leaves no trace when the control flow is rejected. When there is a tree, the blocks in reach had no
place before and have their places in the tree now, and the other blocks keep theirs; from then on, as long as no place is
taken back, building stops at a block that has a place and changes no place. -/
theorem build_places {f : Function} {g : FlowGraph} {before : Placement} (accepted : FlowGraph.build f = .ok g)
    (hsize : before.size = g.size) :
    (∀ r, (Tree.build g before).1 = .error (.rejected r) → (Tree.build g before).2 = before) ∧
      ∀ t, (Tree.build g before).1 = .ok t → (Tree.build g before).2 = t.places ∧
        (∀ b, g.Reached b → before.place? b = none ∧ t.Stands b) ∧
        (∀ b, ¬g.Reached b → t.place? b = before.place? b) ∧
        ∀ later : Placement, later.Extends t.places → ∃ b place, later.place? b = some place ∧
          Tree.build g later = (.error (.fault (.alreadyPlaced (g.blockName b) place)), later) := by
  refine ⟨fun r h => Tree.places_of_rejected h, fun t structured => ?_⟩
  have hg := FlowGraph.build_linked accepted
  obtain ⟨sketch, unvisited, h⟩ := Tree.build_ok hg structured
  have hstands : ∀ b, g.Reached b → before.place? b = none ∧ t.Stands b := fun b hb => by
    have hmem := (h.mem_blocks_iff hg).mpr hb
    exact ⟨h.drawn.fresh b (by simpa [Piece.inner] using hmem), h.stands hsize (h.lt_of_mem hmem) hmem⟩
  refine ⟨(Tree.build_of_ok structured).1, hstands, fun b hb => ?_, fun later hlater => ?_⟩
  · exact h.drawn.frame b (by simpa [Piece.inner, h.mem_blocks_iff hg] using hb)
  · -- The entry at least has a place now that it did not have.
    obtain ⟨hnone, id, n, i, -, -, hplace⟩ := hstands g.entry .refl
    refine Tree.build_again hsize structured (fun heq => ?_) hlater
    rw [← heq] at hnone
    exact Option.some_ne_none _ (hplace.symm.trans hnone)

/-- A switch whose first case holds an If and then goes on in two other cases. -/
def crossedSample : Function where
  name := "crossed"
  instructions := [
    { op := .label, result := 1 }, { op := .selectionMerge, operands := [.ofId 7] },
    { op := .switch, operands := [.ofId 9, .ofId 7, .ofLiteral 1, .ofId 2, .ofLiteral 2, .ofId 5, .ofLiteral 3, .ofId 6] },
    { op := .label, result := 2 }, { op := .selectionMerge, operands := [.ofId 4] },
    { op := .branchConditional, operands := [.ofId 9, .ofId 3, .ofId 4] },
    { op := .label, result := 3 }, { op := .branch, operands := [.ofId 4] },
    { op := .label, result := 4 }, { op := .branchConditional, operands := [.ofId 9, .ofId 5, .ofId 6] },
    { op := .label, result := 5 }, { op := .branch, operands := [.ofId 7] },
    { op := .label, result := 6 }, { op := .branch, operands := [.ofId 7] },
    { op := .label, result := 7 }, { op := .return }]

/-- Only the block behind the switch has a place. -/
def crossedPlaces (g : FlowGraph) : Placement := (Placement.none g).setIfInBounds 6 (some ⟨-1, 3⟩)

/-- The sample has a graph and no tree. -/
theorem crossedSample_rejected : ∃ g r, FlowGraph.build crossedSample = .ok g ∧
    (Tree.build g (crossedPlaces g)).1 = .error (.rejected r) := by
  have hchecked : hasGraph crossedSample (fun g => match (Tree.build g (crossedPlaces g)).1 with
      | .error (.rejected _) => true
      | _ => false) = true := by decide +kernel
  obtain ⟨g, hbuild, hrejected⟩ := exists_of_hasGraph hchecked
  split at hrejected
  · exact ⟨g, _, hbuild, ‹_›⟩
  · cases hrejected

theorem build_places_samples :
    (∃ g r, FlowGraph.build crossedSample = .ok g ∧ (crossedPlaces g).size = g.size ∧
      (Tree.build g (crossedPlaces g)).1 = .error (.rejected r) ∧
      (Tree.build g (crossedPlaces g)).2 = crossedPlaces g) ∧
    ∃ g t, FlowGraph.build loopSample = .ok g ∧ (Placement.none g).size = g.size ∧
      (Tree.build g (.none g)).1 = .ok t ∧ (∀ b, g.Reached b → t.Stands b) ∧
      ∃ f, Tree.build g t.places = (.error (.fault f), t.places) := by
  constructor
  · obtain ⟨g, r, hbuild, hrejected⟩ := crossedSample_rejected
    have hsize : (crossedPlaces g).size = g.size := by simp [crossedPlaces, Placement.none]
    exact ⟨g, r, hbuild, hsize, hrejected, (build_places hbuild hsize).1 r hrejected⟩
  · obtain ⟨g, t, hbuild, htree, -⟩ := loopSample_built
    have hsize : (Placement.none g).size = g.size := by simp [Placement.none]
    obtain ⟨-, hstands, -, hagain⟩ := (build_places hbuild hsize).2 t htree
    obtain ⟨_, _, -, hblocked⟩ := hagain t.places (.refl _)
    exact ⟨g, t, hbuild, hsize, htree, fun b hb => (hstands b hb).2, _, hblocked⟩

end FlowTree
