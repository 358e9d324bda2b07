import FlowTree.Proofs.Nested.Switch

/-!
Nested programs come back as they are. By induction on the program every body nests: there is one step for each
construct, and the label that a body goes on at is handed from the construct to the bodies in it. So a program
whose labels are distinct has a graph and a tree, and the tree looks like the program.
-/

namespace FlowTree

open Structuring

namespace Nested

section
variable {g : FlowGraph}

theorem opens_plain (hg : g.Linked) (block : Opening) (next : Id) : Opens g (.plain block) next := by
  intro budget exits depth d hw _ hknown _ _
  rw [Item.lower] at hw
  have hnext : ∀ l ∈ some next, g.Known l := by simpa using hknown
  exact plain_runs hg hw rfl rfl rfl hnext

mutual

theorem Body.nests (hg : g.Linked) : ∀ (body : Body) (next? : Option Id), Nests g body next?
  | .last block, next? => nests_last hg block next?
  | .cons item rest, next? => nests_cons hg (item.opens hg rest.first) (rest.nests hg next?)

theorem Item.opens (hg : g.Linked) : ∀ (item : Item) (next : Id), Opens g item next
  | .plain block, next => opens_plain hg block next
  | .ifThen _ _ whenTrue whenFalse, next => opens_ifThen hg (whenTrue.nests hg next) (whenFalse.nests hg next)
  | .loop header _ body continuing, _ =>
    opens_loop hg (body.nests hg (some (continuing.firstOr header.label))) (continuing.nests hg header.label)
  | .switch _ _ cases, next => opens_switch hg (cases.nests hg next)

theorem Arm.nests (hg : g.Linked) : ∀ (arm : Arm) (next : Id), arm.Nests g next
  | .missing, _ => trivial
  | .present body, next => body.nests hg (some next)

theorem Cases.nests (hg : g.Linked) : ∀ (cases : Cases) (next : Id), ∀ e ∈ cases.entries next, Nests g e.body (some e.next)
  | .default body, next, e, he => by
    rw [Cases.entries, List.mem_singleton] at he
    exact he ▸ body.nests hg (some next)
  | .case _ falls body rest, next, e, he => by
    rw [Cases.entries, List.mem_cons] at he
    rcases he with rfl | he
    · exact body.nests hg _
    · exact rest.nests hg next e he

end

theorem waits_blank {body : Body} (hosted : ∀ s ∈ body.lower none, Hosted g s) (distinct : body.labels.Nodup) :
    Waits g (body.lower none) (Tree.blank g (.none g)) where
  hosted := hosted
  distinct := distinct
  waiting s hs := List.mem_range.mpr (hosted s hs).known.lt
  ready := Tree.ready_blank g fun b place hplace => by
    rw [Tree.place?_none] at hplace
    cases hplace

theorem root_nests (hg : g.Linked) {body : Body} (hw : Waits g (body.lower none) (Tree.blank g (.none g)))
    (hentry : g.site body.first = g.entry) :
    Ends (root g) (Tree.blank g (.none g)) (fun id d' => ∃ sketch : Sketch,
      Drawn (Tree.blank g (.none g)) d' [⟨.node id, 0, sketch⟩] ∧ sketch.shape g = .node .root body.shapes) never := by
  have hspan : Runs (span g (g.size + 1) g.entry [] 1) (Tree.blank g (.none g)) 1 (fun parts loose =>
      parts.map (Sketch.shape g) = body.shapes ∧ loose.Leaves []) never := by
    rw [← hentry]
    exact body.nests hg none hw (by simp) (by simp) (by simp [Tree.blank])
  refine (root_runs hw.ready hspan ?_).imp ?_
  · rintro parts loose ⟨hparts, hloose⟩
    refine ⟨fun hnil => body.shapes_ne_nil (by simpa [hnil] using hparts.symm), ?_⟩
    simpa [Exits.isEmpty, Exits.targetList] using hloose.targetList_eq_nil
  · rintro id d' ⟨parts, loose, ⟨hparts, -⟩, -, hdrawn⟩
    exact ⟨_, hdrawn, by rw [Sketch.shape_node, hparts]⟩

end

end Nested

/-- A nested program with distinct labels has a graph and a tree, and the tree looks like the program. -/
theorem nested_program_restored (f : Function) (body : Nested.Body) (distinct : body.labels.Nodup)
    (laidOut : body.LaidOut f) :
    ∃ g t, FlowGraph.build f = .ok g ∧ (Tree.build g (.none g)).1 = .ok t ∧ t.graph = g ∧
      t.shape = .node .root body.shapes := by
  obtain ⟨g, hbuild, hosted, hentry⟩ := Nested.build_body distinct laidOut
  have hg := FlowGraph.build_linked hbuild
  have hsite : g.site body.first = g.entry := by simp [FlowGraph.site, hentry]
  have hroot := Nested.root_nests hg (Nested.waits_blank hosted distinct) hsite
  rcases Tree.build_ends hroot with ⟨t, unvisited, htree, hgraph, sketch, hdrawn, hshape⟩ | ⟨_, _, _, hnever⟩
  · refine ⟨g, t, hbuild, htree, hgraph, ?_⟩
    rw [Tree.shape, hgraph, ← hshape]
    exact Tree.fold_region _ _ (hdrawn.draws _ (List.mem_singleton_self _))
  · exact hnever.elim

/-- A loop around a switch whose first case falls into the default. -/
def Nested.switchInLoop : Nested.Body :=
  .cons
    (.loop { label := 1 } 7
      (.cons
        (.switch { label := 2 } 8 (.case 0 true (.last { label := 3 }) (.default (.last { label := 4 }))))
        (.last { label := 5 }))
      .missing)
    (.last { label := 6 })

/-- The loop and the switch come back with the cases in order. -/
theorem nested_program_restored_switchInLoop : ∃ f g t, Nested.switchInLoop.LaidOut f ∧ FlowGraph.build f = .ok g ∧
    (Tree.build g (.none g)).1 = .ok t ∧ t.graph = g ∧ t.shape = .node .root [
      .node .loop [.block 1, .node .loopBody [
        .node .switch [.block 2, .node .case [.block 3], .node .case [.block 4]], .block 5]],
      .block 6] := by
  let f : Function := { name := "f", instructions := (Nested.switchInLoop.lower none).flatMap Nested.Segment.instructions }
  have hlaidOut : Nested.switchInLoop.LaidOut f := ⟨_, _, .refl _, rfl, rfl⟩
  obtain ⟨g, t, hrestored⟩ := nested_program_restored f Nested.switchInLoop (by decide) hlaidOut
  exact ⟨f, g, t, hlaidOut, hrestored⟩

end FlowTree
