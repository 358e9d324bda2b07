import FlowTree.Proofs.Nested.Lowering
import FlowTree.Proofs.Tree.Walk

/-!
What structuring finds where a nested program is. A label stands for its block and a sketch for its shape.
`Open` says what holds when structuring comes to a stretch of the program: its blocks are in the graph and
wait to be visited, and only its first block may be an exit of what is around it. Nothing that can stop
structuring is allowed from here on (`never`).
-/

namespace FlowTree

open Sketch Structuring

namespace FlowGraph

/-- The label of a block. -/
def labelOf (g : FlowGraph) (b : BlockId) : Id := ((g.block? b).map (·.label)).getD 0

/-- The block with the given label. -/
def site (g : FlowGraph) (l : Id) : BlockId := (g.blockOf? l).getD g.entry

/-- There is a block with the label. -/
def Known (g : FlowGraph) (l : Id) : Prop := g.blockOf? l = some (g.site l)

variable {g : FlowGraph} {l l' : Id}

theorem known_of_blockOf? {b : BlockId} (h : g.blockOf? l = some b) : g.Known l := by
  simp [Known, site, h]

theorem Known.lt (h : g.Known l) : g.site l < g.size := blockOf?_lt h

theorem Known.labelOf_site (h : g.Known l) : g.labelOf (g.site l) = l := by
  obtain ⟨hlt, hlabel, -⟩ := Array.findIdx?_eq_some_iff_getElem.mp h
  simpa [labelOf, block?, Array.getElem?_eq_getElem hlt] using hlabel

theorem Known.site_inj (h : g.Known l) (h' : g.Known l') (heq : g.site l = g.site l') : l = l' := by
  rw [← h.labelOf_site, heq, h'.labelOf_site]

theorem mapM_blockOf? {labels : List Id} (h : ∀ l ∈ labels, g.Known l) :
    labels.mapM g.blockOf? = some (labels.map g.site) := by
  refine mapM_some_forall₂ (List.forall₂_map_right_iff.mpr (List.forall₂_same.mpr fun l hl => h l hl))

end FlowGraph

theorem leaves_plainExits (g : FlowGraph) (b : BlockId) : (plainExits g b).Leaves (g.successors b) := by
  have key : ∀ (transfers : List (BlockId × EdgeId)) (x : BlockExits) (ts : List BlockId), x.Leaves ts →
      (transfers.foldl (fun x t => x.add t.1 t.2) x).Leaves (ts ++ transfers.map (·.1)) := by
    intro transfers
    induction transfers with
    | nil => simp
    | cons t transfers ih =>
      intro x ts hx
      refine (ih _ _ (hx.addAll t.1 (List.cons_ne_nil t.2 []))).congr fun v => ?_
      simp [or_left_comm]
  rw [FlowGraph.successors_eq_transfers]
  exact key (g.transfers b) {} [] (Exits.leaves_nil [])

theorem Exits.Leaves.kept {x : BlockExits} {ts exits : List BlockId} (hx : x.Leaves ts) :
    (kept exits x).Leaves (ts.filter (· ∈ exits)) where
  toNeat := neat_kept hx.toNeat
  mem_iff t := by
    rw [List.mem_filter, ← hx.mem_iff, Exits.mem_targetList, Exits.mem_targetList]
    simp [Structuring.kept]

theorem Exits.Leaves.onward_eq {x : BlockExits} {t : BlockId} {exits : List BlockId} (hx : x.Leaves [t]) (ht : t ∉ exits) :
    onward exits x = [t] := by
  simp [onward, hx.targetList_eq, ht]

theorem Exits.Leaves.onward_eq_nil {x : BlockExits} {ts exits : List BlockId} (hx : x.Leaves ts)
    (hts : ∀ t ∈ ts, t ∈ exits) :
    onward exits x = [] := by
  rw [onward, List.filter_eq_nil_iff]
  intro t ht
  simpa using hts t ((hx.mem_iff t).mp ht)

/-- Several stretches leave for the targets that each of them leaves for. -/
theorem leaves_foldl_merge {α : Type} {f : α → BlockExits} {targets : α → List BlockId} {items : List α}
    (h : ∀ a ∈ items, (f a).Leaves (targets a)) {x : BlockExits} {ts : List BlockId} (hx : x.Leaves ts) :
    (items.foldl (fun x a => x.merge (f a)) x).Leaves (ts ++ items.flatMap targets) := by
  induction items generalizing x ts with
  | nil => simpa using hx
  | cons a items ih =>
    obtain ⟨ha, hrest⟩ := List.forall_mem_cons.mp h
    simpa using ih hrest (hx.merge ha)

theorem leaves_mergeAll {spans : List SpanSketch} {ts : List BlockId} (hne : spans ≠ [])
    (h : ∀ span ∈ spans, span.2.Leaves ts) : (mergeAll {} spans).Leaves ts := by
  refine (leaves_foldl_merge h (Exits.leaves_nil [])).congr fun t => ?_
  obtain ⟨span, hspan⟩ := List.exists_mem_of_ne_nil spans hne
  simp only [List.nil_append, List.mem_flatMap]
  exact ⟨fun ⟨_, _, ht⟩ => ht, fun ht => ⟨span, hspan, ht⟩⟩

/-! ### Shapes -/

/-- What a sketch looks like. -/
def Sketch.shape (g : FlowGraph) (s : Sketch) : Shape := s.fold (fun b => .block (g.labelOf b)) .node

/-- What a tree looks like. -/
def Tree.shape (t : Tree) : Shape := t.region.fold (fun b => .block (t.graph.labelOf b)) .node

@[simp] theorem Sketch.shape_block (g : FlowGraph) (b : BlockId) :
    (Sketch.block b).shape g = .block (g.labelOf b) := rfl

@[simp] theorem Sketch.shape_node (g : FlowGraph) (kind : Kind) (exits : BlockExits) (parts : List Sketch) :
    (Sketch.node kind exits parts).shape g = .node kind (parts.map (Sketch.shape g)) := by
  simp [shape, fold, foldAll_eq_map]

namespace Shape

mutual

/-- The labels in a shape, in order. -/
def labels : Shape → List Id
  | .block label => [label]
  | .node _ parts => labelsOf parts

/-- The labels in shapes, in order. -/
def labelsOf : List Shape → List Id
  | [] => []
  | s :: rest => s.labels ++ labelsOf rest

end

theorem labelsOf_append (xs ys : List Shape) : labelsOf (xs ++ ys) = labelsOf xs ++ labelsOf ys := by
  induction xs with
  | nil => rfl
  | cons x xs ih => simp [labelsOf, ih]

end Shape

mutual

theorem Sketch.labels_shape (g : FlowGraph) : ∀ s : Sketch, (s.shape g).labels = s.blocks.map g.labelOf
  | .block b => by simp [Shape.labels]
  | .node kind exits parts => by simp [Shape.labels, Sketch.labelsOf_shapes g parts]

theorem Sketch.labelsOf_shapes (g : FlowGraph) :
    ∀ parts : List Sketch, Shape.labelsOf (parts.map (Sketch.shape g)) = (blocksOf parts).map g.labelOf
  | [] => by simp [Shape.labelsOf]
  | s :: rest => by simp [Shape.labelsOf, Sketch.labels_shape g s, Sketch.labelsOf_shapes g rest]

end

namespace Nested

mutual

theorem Body.labelsOf_shapes : ∀ (body : Body) (next? : Option Id),
    Shape.labelsOf body.shapes = (body.lower next?).map Segment.label
  | .last _, next? => rfl
  | .cons item rest, next? => by
    simp [Body.shapes, Body.lower, Shape.labelsOf, item.labels_shape rest.first, rest.labelsOf_shapes next?]

theorem Item.labels_shape : ∀ (item : Item) (next : Id), item.shape.labels = (item.lower next).map Segment.label
  | .plain _, next => rfl
  | .ifThen header condition whenTrue whenFalse, next => by
    simp [Item.shape, Item.lower, Shape.labels, Shape.labelsOf, Shape.labelsOf_append,
      whenTrue.labelsOf_shapes .ifPart next, whenFalse.labelsOf_shapes .ifPart next, Segment.label]
  | .loop header condition body continuing, next => by
    simp [Item.shape, Item.lower, Shape.labels, Shape.labelsOf,
      body.labelsOf_shapes (some (continuing.firstOr header.label)),
      continuing.labelsOf_shapes .continuing header.label, Segment.label]
  | .switch header selector cases, next => by
    simp [Item.shape, Item.lower, Shape.labels, Shape.labelsOf, cases.labelsOf_shapes next, Segment.label]

theorem Arm.labelsOf_shapes : ∀ (arm : Arm) (kind : Kind) (next : Id),
    Shape.labelsOf (arm.shapes kind) = (arm.lower next).map Segment.label
  | .missing, kind, next => rfl
  | .present body, kind, next => by
    simp [Arm.shapes, Arm.lower, Shape.labels, Shape.labelsOf, body.labelsOf_shapes (some next)]

theorem Cases.labelsOf_shapes : ∀ (cases : Cases) (next : Id),
    Shape.labelsOf cases.shapes = (cases.lower next).map Segment.label
  | .default body, next => by
    simp [Cases.shapes, Cases.lower, Shape.labels, Shape.labelsOf, body.labelsOf_shapes (some next)]
  | .case _ falls body rest, next => by
    simp [Cases.shapes, Cases.lower, Shape.labels, Shape.labelsOf,
      body.labelsOf_shapes (some (if falls then rest.first else next)), rest.labelsOf_shapes next]

end

theorem Body.shapes_ne_nil (body : Body) : body.shapes ≠ [] := by
  cases body <;> simp [Body.shapes]

/-! ### Blocks of the program -/

section
variable {g : FlowGraph} {s : Segment}

theorem Hosted.known (h : Hosted g s) : g.Known s.label := by
  obtain ⟨b, -, hb, -⟩ := h
  exact FlowGraph.known_of_blockOf? hb

theorem Hosted.exists_block (h : Hosted g s) : ∃ block, g.block? (g.site s.label) = some block ∧
    block.merge? = s.merge? ∧ block.terminator? = some s.terminator := by
  obtain ⟨b, block, hb, found, merges, ends⟩ := h
  have hsite : g.site s.label = b := by simp [FlowGraph.site, hb]
  exact ⟨block, hsite ▸ found, merges, ends⟩

/-- The block goes on at the blocks of the labels that its terminator names. -/
theorem Hosted.successors (hg : g.Linked) (h : Hosted g s) {labels : List Id}
    (targets : s.terminator.branchTargets? = some labels) (known : ∀ l ∈ labels, g.Known l) :
    g.successors (g.site s.label) = (labels.map g.site).eraseDups := by
  obtain ⟨block, found, -, ends⟩ := h.exists_block
  obtain ⟨i, labels', blocks, ends', htargets, resolved, hs⟩ := hg.terminator _ block found
  rw [ends] at ends'
  cases ends'
  rw [targets] at htargets
  cases htargets
  rw [FlowGraph.mapM_blockOf? known] at resolved
  cases resolved
  exact hs

end

/-- Structuring is not stopped. -/
def never (_ : Halt) (_ : Draft) : Prop := False

/-- A stretch of the program waits to be visited. -/
structure Waits (g : FlowGraph) (segments : List Segment) (d : Draft) : Prop where
  hosted : ∀ s ∈ segments, Hosted g s
  distinct : (segments.map Segment.label).Nodup
  waiting : ∀ s ∈ segments, g.site s.label ∈ d.unvisited
  ready : Ready g never d

section
variable {g : FlowGraph} {segments xs : List Segment} {d d' : Draft} {blocks : List BlockId}

/-- A part of the stretch still waits when other blocks have been visited. -/
theorem Waits.later (h : Waits g segments d) (hsub : xs.Sublist segments) (hvisited : Visited g never d blocks d')
    (hother : ∀ s ∈ xs, s.label ∉ blocks.map g.labelOf) : Waits g xs d' where
  hosted s hs := h.hosted s (hsub.mem hs)
  distinct := h.distinct.sublist (hsub.map _)
  waiting s hs := by
    have hmem := hvisited.perm.mem_iff.mp (h.waiting s (hsub.mem hs))
    rcases List.mem_append.mp hmem with hmem | hmem
    · have hlabel := List.mem_map_of_mem (f := g.labelOf) hmem
      rw [(h.hosted s (hsub.mem hs)).known.labelOf_site] at hlabel
      exact absurd hlabel (hother s hs)
    · exact hmem
  ready := hvisited.ready

theorem Waits.sublist (h : Waits g segments d) (hsub : xs.Sublist segments) : Waits g xs d := by
  have hvisited : Visited g never d [] d := ⟨h.ready, List.Perm.refl _⟩
  exact h.later hsub hvisited (by simp)

/-- The second of two stretches still waits when the first has been visited. -/
theorem Waits.behind {ys : List Segment} (h : Waits g (xs ++ ys) d) (hvisited : Visited g never d blocks d')
    (hlabels : blocks.map g.labelOf = xs.map Segment.label) : Waits g ys d' := by
  have hdistinct := h.distinct
  rw [List.map_append, List.nodup_append'] at hdistinct
  refine h.later (List.sublist_append_right xs ys) hvisited fun s hs hmem => ?_
  exact hdistinct.2.2 (hlabels ▸ hmem) (List.mem_map_of_mem hs)

/-- Blocks with other labels are other blocks. -/
theorem Waits.site_ne (h : Waits g segments d) {s : Segment} (hs : s ∈ segments) {l : Id} (hl : g.Known l)
    (hne : s.label ≠ l) : g.site s.label ≠ g.site l := fun heq =>
  hne ((h.hosted s hs).known.site_inj hl heq)

end

end Nested
end FlowTree
