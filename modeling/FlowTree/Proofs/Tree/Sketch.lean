import FlowTree.FlowGraph.Build
import FlowTree.Proofs.FlowGraph.Linked
import FlowTree.Tree.Structuring
import Mathlib.Data.List.Perm.Basic

/-!
Sketches: structure trees without the table that their nodes stand in. `Spans` says which sketches and
which loose ends a span has, construct by construct and with everything that structuring looks at on the
way. It speaks of neither the table nor the visited blocks, so that what a tree says about the control
flow is proved from it alone.
-/

namespace FlowTree

/-- A block, or a node with its loose ends and what is in it. -/
inductive Sketch where
  | block (b : BlockId)
  | node (kind : Kind) (exits : BlockExits) (parts : List Sketch)

namespace Sketch

mutual

/-- The blocks of a sketch, in order. -/
def blocks : Sketch → List BlockId
  | .block b => [b]
  | .node _ _ parts => blocksOf parts

/-- The blocks of sketches, in order. -/
def blocksOf : List Sketch → List BlockId
  | [] => []
  | s :: rest => s.blocks ++ blocksOf rest

end

mutual

/-- The first block of a sketch. -/
def first : Sketch → BlockId
  | .block b => b
  | .node _ _ parts => firstOf parts

/-- The first block of sketches. -/
def firstOf : List Sketch → BlockId
  | [] => 0
  | s :: _ => s.first

end

/-- A node for a span, unless the span is empty. -/
def part (kind : Kind) (exits : BlockExits) (parts : List Sketch) : List Sketch :=
  if parts.isEmpty then [] else [.node kind exits parts]

@[simp] theorem blocks_block (b : BlockId) : (Sketch.block b).blocks = [b] := by simp [blocks]

@[simp] theorem blocks_node (kind : Kind) (exits : BlockExits) (parts : List Sketch) :
    (Sketch.node kind exits parts).blocks = blocksOf parts := by simp [blocks]

@[simp] theorem blocksOf_nil : blocksOf [] = [] := by simp [blocksOf]

@[simp] theorem blocksOf_cons (s : Sketch) (rest : List Sketch) : blocksOf (s :: rest) = s.blocks ++ blocksOf rest := by
  simp [blocksOf]

theorem blocksOf_eq_flatMap (parts : List Sketch) : blocksOf parts = parts.flatMap blocks := by
  induction parts with
  | nil => simp
  | cons s rest ih => simp [ih]

@[simp] theorem blocksOf_append (xs ys : List Sketch) : blocksOf (xs ++ ys) = blocksOf xs ++ blocksOf ys := by
  simp [blocksOf_eq_flatMap]

theorem mem_blocksOf {parts : List Sketch} {b : BlockId} : b ∈ blocksOf parts ↔ ∃ s ∈ parts, b ∈ s.blocks := by
  simp [blocksOf_eq_flatMap]

@[simp] theorem blocksOf_part (kind : Kind) (exits : BlockExits) (parts : List Sketch) :
    blocksOf (part kind exits parts) = blocksOf parts := by
  unfold part
  split
  · simp_all
  · simp

@[simp] theorem first_block (b : BlockId) : (Sketch.block b).first = b := by simp [first]

@[simp] theorem first_node (kind : Kind) (exits : BlockExits) (parts : List Sketch) :
    (Sketch.node kind exits parts).first = firstOf parts := by simp [first]

@[simp] theorem firstOf_cons (s : Sketch) (rest : List Sketch) : firstOf (s :: rest) = s.first := by simp [firstOf]

section
variable {parts : List Sketch} {i j : Nat} {p q : Sketch} {x : BlockId}

/-- Only one part has a given block, and it stands at one place. -/
theorem index_unique (hnodup : (blocksOf parts).Nodup) (hp : parts[i]? = some p) (hq : parts[j]? = some q)
    (hxp : x ∈ p.blocks) (hxq : x ∈ q.blocks) : i = j := by
  rw [blocksOf_eq_flatMap, List.nodup_flatMap] at hnodup
  have hpair := hnodup.2
  rw [List.pairwise_iff_getElem] at hpair
  obtain ⟨hi, rfl⟩ := List.getElem?_eq_some_iff.mp hp
  obtain ⟨hj, rfl⟩ := List.getElem?_eq_some_iff.mp hq
  rcases Nat.lt_trichotomy i j with hlt | heq | hgt
  · exact absurd hxq (hpair i j hi hj hlt hxp)
  · exact heq
  · exact absurd hxp (hpair j i hj hi hgt hxq)

theorem part_unique (hnodup : (blocksOf parts).Nodup) (hp : p ∈ parts) (hq : q ∈ parts) (hxp : x ∈ p.blocks)
    (hxq : x ∈ q.blocks) : p = q := by
  obtain ⟨i, hi⟩ := List.mem_iff_getElem?.mp hp
  obtain ⟨j, hj⟩ := List.mem_iff_getElem?.mp hq
  have := index_unique hnodup hi hj hxp hxq
  subst this
  exact Option.some.inj (hi.symm.trans hj)

theorem nodup_blocks (hnodup : (blocksOf parts).Nodup) (hp : p ∈ parts) : p.blocks.Nodup := by
  rw [blocksOf_eq_flatMap, List.nodup_flatMap] at hnodup
  exact hnodup.1 p hp

end

end Sketch

/-! ### Spans and constructs -/

/-- Which sketches and loose ends a span from a block has, given the exits of what is around it. -/
abbrev SpanRelation := List BlockId → BlockId → List Sketch → BlockExits → Prop

/-- The sketches and the loose ends of a span. -/
abbrev SpanSketch := List Sketch × BlockExits

/-- The loose ends of several spans together. -/
def mergeAll (loose : BlockExits) (spans : List SpanSketch) : BlockExits :=
  spans.foldl (fun x span => x.merge span.2) loose

/-- A switch case as a sketch, with the loose ends of its span and the case that it falls into. -/
structure ArmSketch where
  target : BlockId
  parts : List Sketch
  loose : BlockExits
  fallsInto? : Option BlockId

namespace ArmSketch

/-- The loose ends that the case leaves to what is around the switch. -/
def exits (a : ArmSketch) : BlockExits :=
  match a.fallsInto? with
  | none => a.loose
  | some next => a.loose.remove next

/-- The node of the case. -/
def sketch (a : ArmSketch) : Sketch := .node .case a.exits a.parts

end ArmSketch

section
variable (g : FlowGraph) (R : SpanRelation)

/-- The span from a block that is entered by the given edges: nothing where the block is an exit. -/
inductive Enters (exits : List BlockId) (start : BlockId) (sources : List EdgeId) :
    List Sketch → BlockExits → Prop
  | stop : start ∈ exits → Enters exits start sources [] (Exits.addAll {} start sources)
  | go {parts : List Sketch} {loose : BlockExits} :
    start ∉ exits → R exits start parts loose → Enters exits start sources parts loose

/-- The continue part of a loop, after a body with the given loose ends. -/
inductive Continues (exits : List BlockId) (target : BlockId) (body : BlockExits) :
    List Sketch → BlockExits → Prop
  | absent : (target ∉ body.targetList ∨ target ∈ exits) → Continues exits target body [] body
  | present {parts : List Sketch} {ends : BlockExits} :
    target ∈ body.targetList → target ∉ exits → R exits target parts ends →
    Continues exits target body parts ((body.remove target).merge ends)

/-- The case for a target of a switch whose cases have the given targets. -/
structure ArmOf (targets exits : List BlockId) (target : BlockId) (a : ArmSketch) : Prop where
  target_eq : a.target = target
  span : R (targets ++ exits) target a.parts a.loose
  falls : a.loose.targetList.filter (· ∈ targets) = a.fallsInto?.toList

/-- Every case is directly before the one that it falls into. -/
def Follows (arms : List ArmSketch) : Prop :=
  ∀ i a next, arms[i]? = some a → a.fallsInto? = some next → ∃ b, arms[i + 1]? = some b ∧ b.target = next

/-- The loose ends of a plain block. -/
def plainExits (b : BlockId) : BlockExits :=
  (g.transfers b).foldl (fun x transfer => x.add transfer.1 transfer.2) {}

/-- The edges from a switch's header to targets that are exits already. -/
def directExits (b : BlockId) (targets : List BlockId) : BlockExits :=
  targets.foldl (fun x t => x.addAll t (g.edgeBetween? b t).toList) {}

/-- The loose ends of a switch with the given cases. -/
def switchExits (b : BlockId) (targets exits : List BlockId) (arms : List ArmSketch) : BlockExits :=
  arms.foldl (fun x a => x.merge a.exits) (directExits g b (targets.filter (· ∈ exits)))

/-- What a block becomes with the construct that it opens, and the loose ends of that. -/
inductive Constructs (exits : List BlockId) (b : BlockId) : Sketch → BlockExits → Prop
  | leaving {block : Block} (found : g.block? b = some block) (plain : block.merge? = none)
    (leaves : block.isLeaving = true) : Constructs exits b (.block b) { returnOrKill := [b] }
  | plain {block : Block} (found : g.block? b = some block) (plain : block.merge? = none)
    (stays : block.isLeaving = false) : Constructs exits b (.block b) (plainExits g b)
  | loop {block : Block} {merge : Instruction} {mergeLabel continueLabel : Id} {m c : BlockId}
    {spans : List SpanSketch} {continuing : List Sketch} {loose : BlockExits}
    (found : g.block? b = some block) (merges : block.merge? = some merge)
    (labels : merge.loopMerge? = some (mergeLabel, continueLabel))
    (mergeBlock : g.blockOf? mergeLabel = some m) (continueBlock : g.blockOf? continueLabel = some c)
    (body : List.Forall₂ (fun transfer span =>
      Enters R (c :: m :: exits) transfer.1 [transfer.2] span.1 span.2) (g.transfers b) spans)
    (rest : Continues R (b :: m :: exits) c (mergeAll {} spans) continuing loose) :
    Constructs exits b (.node .loop (loose.remove b) (.block b ::
      (Sketch.part .loopBody {} (spans.flatMap (·.1)) ++ Sketch.part .continuing {} continuing)))
      (loose.remove b)
  | ifThen {block : Block} {merge terminator : Instruction} {mergeLabel whenTrue whenFalse : Id} {m : BlockId}
    {sides : List BlockId} {spans : List SpanSketch}
    (found : g.block? b = some block) (merges : block.merge? = some merge)
    (label : merge.selectionMerge? = some mergeLabel) (mergeBlock : g.blockOf? mergeLabel = some m)
    (ends : block.terminator? = some terminator)
    (labels : terminator.conditionalTargets? = some (whenTrue, whenFalse))
    (resolved : (if whenFalse = whenTrue then [whenTrue] else [whenTrue, whenFalse]).mapM g.blockOf? = some sides)
    (arms : List.Forall₂ (fun side span =>
      Enters R (m :: exits) side (g.edgeBetween? b side).toList span.1 span.2) sides spans) :
    Constructs exits b (.node .ifThen (mergeAll {} spans) (.block b ::
      spans.flatMap fun span => Sketch.part .ifPart span.2 span.1)) (mergeAll {} spans)
  | switch {block : Block} {merge terminator : Instruction} {mergeLabel defaultLabel : Id} {m default : BlockId}
    {cases : List SwitchCase} {caseBlocks targets : List BlockId} {arms ordered : List ArmSketch}
    (found : g.block? b = some block) (merges : block.merge? = some merge)
    (label : merge.selectionMerge? = some mergeLabel) (mergeBlock : g.blockOf? mergeLabel = some m)
    (ends : block.terminator? = some terminator)
    (labels : terminator.switchCases? = some (defaultLabel, cases))
    (defaultBlock : g.blockOf? defaultLabel = some default)
    (resolved : cases.mapM (fun case => g.blockOf? case.target) = some caseBlocks)
    (targets_eq : targets = Structuring.switchTargets caseBlocks default)
    (parsed : List.Forall₂ (ArmOf R (targets.filter (· ∉ m :: exits)) (m :: exits))
      (targets.filter (· ∉ m :: exits)) arms)
    (same : ordered.Perm arms) (follows : Follows ordered) :
    Constructs exits b (.node .switch (switchExits g b targets (m :: exits) arms)
      (.block b :: ordered.map ArmSketch.sketch)) (switchExits g b targets (m :: exits) arms)

end

/-- The sketches of a span and its loose ends, with as many blocks in sequence or nested as the budget
says. -/
def Spans (g : FlowGraph) : Nat → SpanRelation
  | 0, _, _, _, _ => False
  | budget + 1, exits, start, parts, loose =>
    ∃ child ends, Constructs g (Spans g budget) exits start child ends ∧
      ((Structuring.onward exits ends = [] ∧ parts = [child] ∧ loose = Structuring.kept exits ends) ∨
        ∃ next rest ends', Structuring.onward exits ends = [next] ∧ Spans g budget exits next rest ends' ∧
          parts = child :: rest ∧ loose = (Structuring.kept exits ends).merge ends')

/-- Induction on the budget: a span ends with the construct that it starts with or goes on behind it, and the spans in
that construct and behind it have the statement already. -/
theorem Spans.induction {g : FlowGraph} {motive : SpanRelation}
    (last : ∀ {budget exits start child ends},
      (∀ ⦃exits start parts loose⦄, Spans g budget exits start parts loose → motive exits start parts loose) →
      Constructs g (Spans g budget) exits start child ends → Structuring.onward exits ends = [] →
      motive exits start [child] (Structuring.kept exits ends))
    (further : ∀ {budget exits start child ends next rest ends'},
      (∀ ⦃exits start parts loose⦄, Spans g budget exits start parts loose → motive exits start parts loose) →
      Constructs g (Spans g budget) exits start child ends → Structuring.onward exits ends = [next] →
      Spans g budget exits next rest ends' →
      motive exits start (child :: rest) ((Structuring.kept exits ends).merge ends'))
    (budget : Nat) :
    ∀ ⦃exits start parts loose⦄, Spans g budget exits start parts loose → motive exits start parts loose := by
  induction budget with
  | zero => exact fun _ _ _ _ h => h.elim
  | succ budget ih =>
    rintro exits start parts loose ⟨child, ends, hchild, ⟨hnone, rfl, rfl⟩ | ⟨next, rest, ends', hnext, hrest, rfl, rfl⟩⟩
    · exact last ih hchild hnone
    · exact further ih hchild hnext hrest

end FlowTree
