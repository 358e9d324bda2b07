import FlowTree.Proofs.Tree.Closure

/-!
How a tree explains transfers of control. An edge between two blocks is looked at in the deepest node that
has them both: there it leads on to the next child of a sequence, into an arm or a case, back to the header
of a loop, or into the body or the continue part of one. `Explains` is this list. `Spans.explained` says that
it is complete: every edge between blocks of a span is explained at the node where it crosses from one child
to another.

The one edge that a span cannot explain by itself leads back to its own start where that is an exit. Around
a plain span there is none, since the start is no exit; around a switch case there is none because the case
would fall into itself.
-/

namespace FlowTree

open Sketch Structuring

/-- How the parts of a tree are looked at: their first blocks, their kinds if they are nodes, and what is
in them. -/
structure PartView (γ : Type) where
  first? : γ → Option BlockId
  kind? : γ → Option Kind
  inner : γ → List γ

/-- The node is a sequence of what it holds. -/
def Kind.isSequence : Kind → Bool
  | .root | .ifPart | .loopBody | .continuing | .case => true
  | _ => false

/-- A node of the given kind explains the transfer from its child `i` to a block `v` of its child `j`. -/
inductive Explains {γ : Type} (view : PartView γ) (kind : Kind) (children : List γ) (i j : Nat) (v : BlockId) : Prop
  /-- On to the next child of a sequence. -/
  | next (sequence : kind.isSequence = true) (after : j = i + 1) {c : γ} (child : children[j]? = some c)
    (first : view.first? c = some v)
  /-- From the header of an If into an arm. -/
  | arm (selection : kind = .ifThen) (header : i = 0) (arm : 1 ≤ j) {c : γ} (child : children[j]? = some c)
    (first : view.first? c = some v)
  /-- From the header of a Switch, or from the case before, into a case. -/
  | case (selection : kind = .switch) (source : i = 0 ∨ j = i + 1) (case : 1 ≤ j) {c : γ}
    (child : children[j]? = some c) (first : view.first? c = some v)
  /-- Back to the header of a Loop. -/
  | back (loop : kind = .loop) (header : j = 0) {c : γ} (child : children[j]? = some c)
    (isBlock : view.kind? c = none) (first : view.first? c = some v)
  /-- From the header of a Loop into its body. -/
  | body (loop : kind = .loop) (header : i = 0) {c : γ} (child : children[j]? = some c)
    (isBody : view.kind? c = some .loopBody) {c' : γ} (inside : c' ∈ view.inner c) (first : view.first? c' = some v)
  /-- From the header or the body of a Loop to its continue part. -/
  | continuing (loop : kind = .loop) {c : γ} (child : children[j]? = some c)
    (isContinue : view.kind? c = some .continuing) (first : view.first? c = some v)
    (source : i = 0 ∨ ∃ c', children[i]? = some c' ∧ view.kind? c' = some .loopBody)

namespace Sketch

/-- Sketches as parts of a tree. -/
def view : PartView Sketch where
  first? s := some s.first
  kind?
    | .block _ => none
    | .node kind _ _ => some kind
  inner
    | .block _ => []
    | .node _ _ parts => parts

/-- The parts `i` and `j` are different and have the one block and the other, or both are the same block. -/
structure Crosses (parts : List Sketch) (i j : Nat) (u v : BlockId) : Prop where
  source : ∃ p, parts[i]? = some p ∧ u ∈ p.blocks ∧ (i = j → p = .block u)
  target : ∃ q, parts[j]? = some q ∧ v ∈ q.blocks

/-- Every edge from one part to another leads on to the first block of the next part. -/
def Sequential (g : FlowGraph) (parts : List Sketch) : Prop :=
  ∀ i j u v, Crosses parts i j u v → v ∈ g.successors u → j = i + 1 ∧ ∃ q, parts[j]? = some q ∧ q.first = v

/-- Every edge that crosses between parts of a node in the sketch is explained. -/
inductive Explained (g : FlowGraph) : Sketch → Prop
  | block (b : BlockId) : Explained g (.block b)
  | node {kind : Kind} {exits : BlockExits} {parts : List Sketch}
    (here : ∀ i j u v, Crosses parts i j u v → v ∈ g.successors u → Explains view kind parts i j v)
    (inside : ∀ s ∈ parts, Explained g s) : Explained g (.node kind exits parts)

section
variable {g : FlowGraph} {parts : List Sketch} {i j : Nat} {p q : Sketch} {x : BlockId}

/-- Where there is an edge between different parts, it does not stay in the part that it starts from. -/
theorem Crosses.leaves {u v : BlockId} (h : Crosses parts i j u v) (hnodup : (blocksOf parts).Nodup)
    (hp : parts[i]? = some p) (hv : v ∈ p.blocks) : p = .block u := by
  obtain ⟨⟨p', hp', -, hself⟩, q, hq, hvq⟩ := h
  obtain rfl : p = p' := Option.some.inj (hp.symm.trans hp')
  exact hself (index_unique hnodup hp hq hv hvq)

/-- The two parts of a list of parts have edges of their own only. -/
theorem Sequential.append {xs ys : List Sketch} (hx : Sequential g xs) (hy : Sequential g ys)
    (hxy : ∀ u ∈ blocksOf xs, ∀ v ∈ blocksOf ys, v ∉ g.successors u)
    (hyx : ∀ u ∈ blocksOf ys, ∀ v ∈ blocksOf xs, v ∉ g.successors u) : Sequential g (xs ++ ys) := by
  rintro i j u v ⟨⟨p, hp, hu, hself⟩, q, hq, hv⟩ hstep
  rw [List.getElem?_append] at hp hq
  split at hp
  · split at hq
    · obtain ⟨hj, q', hq', hfirst⟩ := hx i j u v ⟨⟨p, hp, hu, hself⟩, q, hq, hv⟩ hstep
      exact ⟨hj, q', by rw [List.getElem?_append_left ‹j < xs.length›]; exact hq', hfirst⟩
    · exact absurd hstep (hxy u (mem_blocksOf.mpr ⟨p, List.mem_of_getElem? hp, hu⟩) v
        (mem_blocksOf.mpr ⟨q, List.mem_of_getElem? hq, hv⟩))
  · split at hq
    · exact absurd hstep (hyx u (mem_blocksOf.mpr ⟨p, List.mem_of_getElem? hp, hu⟩) v
        (mem_blocksOf.mpr ⟨q, List.mem_of_getElem? hq, hv⟩))
    · obtain ⟨hj, q', hq', hfirst⟩ := hy (i - xs.length) (j - xs.length) u v
        ⟨⟨p, hp, hu, fun h => hself (by omega)⟩, q, hq, hv⟩ hstep
      exact ⟨by omega, q', by rw [List.getElem?_append_right (by omega)]; exact hq', hfirst⟩

theorem Sequential.nil (g : FlowGraph) : Sequential g [] := by
  rintro i j u v ⟨⟨p, hp, -⟩, -⟩
  simp at hp

/-- A node for a span is explained when its edges lead from part to part. -/
theorem Explained.part {kind : Kind} {exits : BlockExits} (hkind : kind.isSequence = true)
    (hseq : Sequential g parts) (hin : ∀ s ∈ parts, Explained g s) : Explained g (.node kind exits parts) := by
  refine .node (fun i j u v hc hstep => ?_) hin
  obtain ⟨hj, q, hq, hfirst⟩ := hseq i j u v hc hstep
  exact .next hkind hj hq (congrArg some hfirst)

end

end Sketch

/-- The edges in a span are explained unless one leads back to its start. -/
def SpanExplained (g : FlowGraph) (R : SpanRelation) : Prop :=
  ∀ ⦃exits start parts loose⦄, R exits start parts loose → (blocksOf parts).Nodup →
    (∀ e, ¬loose.Records start e) → Sequential g parts ∧ ∀ s ∈ parts, Explained g s

section
variable {g : FlowGraph} {R : SpanRelation}

theorem Enters.explained (hR : SpanFactsOf g R)
    (hE : SpanExplained g R) {exits : List BlockId} {start : BlockId} {sources : List EdgeId} {parts : List Sketch}
    {loose : BlockExits} (h : Enters R exits start sources parts loose) (hnodup : (blocksOf parts).Nodup) :
    Sequential g parts ∧ ∀ s ∈ parts, Explained g s := by
  cases h with
  | stop => exact ⟨Sequential.nil g, by simp⟩
  | go hstart hrun =>
    exact hE hrun hnodup fun e he => hstart ((hR hrun).targets start e he)

/-- The spans that a header branches to have no edges between each other. -/
theorem sequential_flatMap {α : Type} {s : α → BlockId} {f : α → List EdgeId} {exits : List BlockId}
    {branches : List α} {spans : List SpanSketch}
    (facts : List.Forall₂ (fun a span => EntryFacts g exits (s a) (f a) span.1 span.2) branches spans)
    (hseq : ∀ span ∈ spans, Sequential g span.1) (hnodup : (blocksOf (spans.flatMap (·.1))).Nodup) :
    Sequential g (spans.flatMap (·.1)) := by
  induction facts with
  | nil => exact Sequential.nil g
  | @cons a span branches spans hfacts rest ih =>
    rw [List.flatMap_cons, blocksOf_append] at hnodup
    obtain ⟨-, hnodup', hdisjoint⟩ := List.nodup_append'.mp hnodup
    obtain ⟨hspan, hspans⟩ := List.forall_mem_cons.mp hseq
    have houtside : ∀ x ∈ blocksOf (spans.flatMap (·.1)), x ∉ exits := fun x hx => by
      obtain ⟨span', hmem, hx⟩ := (mem_blocksOf_flatMap fun _ => rfl).mp hx
      obtain ⟨_, -, hf⟩ := exists_of_mem_right rest hmem
      exact hf.outside x hx
    refine hspan.append (ih hspans hnodup') (fun u hu v hv hstep => ?_) fun u hu v hv hstep => ?_
    · obtain ⟨e, he⟩ := FlowGraph.mem_successors_iff.mp hstep
      rcases hfacts.closed u hu v e he with h | h
      · exact hdisjoint h hv
      · exact houtside v hv (hfacts.targets v e h)
    · obtain ⟨e, he⟩ := FlowGraph.mem_successors_iff.mp hstep
      obtain ⟨span', hmem, hu⟩ := (mem_blocksOf_flatMap fun _ => rfl).mp hu
      obtain ⟨_, -, hf⟩ := exists_of_mem_right rest hmem
      rcases hf.closed u hu v e he with h | h
      · exact hdisjoint hv ((mem_blocksOf_flatMap fun _ => rfl).mpr ⟨span', hmem, h⟩)
      · exact hfacts.outside v hv (hf.targets v e h)

/-- The blocks of one of several spans with distinct blocks are distinct. -/
theorem nodup_span {spans : List SpanSketch} (hnodup : (blocksOf (spans.flatMap (·.1))).Nodup) {span : SpanSketch}
    (hspan : span ∈ spans) : (blocksOf span.1).Nodup := by
  have hflat : blocksOf (spans.flatMap (·.1)) = spans.flatMap fun span => blocksOf span.1 := by
    simp [blocksOf_eq_flatMap, List.flatMap_assoc]
  rw [hflat, List.nodup_flatMap] at hnodup
  exact hnodup.1 span hspan

/-! ### Loops -/

section Loop
variable {b : BlockId} {body continuing : List Sketch} {i : Nat} {p : Sketch}

/-- A child of a loop is its header, its body or its continue part. -/
theorem loop_child (h : (Sketch.block b :: (part .loopBody {} body ++ part .continuing {} continuing))[i]? = some p) :
    (i = 0 ∧ p = .block b) ∨ p = .node .loopBody {} body ∨ p = .node .continuing {} continuing := by
  cases i with
  | zero => exact Or.inl ⟨rfl, by simpa using h.symm⟩
  | succ i =>
    have hmem := List.mem_of_getElem? (by simpa using h)
    rcases List.mem_append.mp hmem with h | h <;> unfold part at h <;> split at h <;> simp_all

end Loop

section
variable {exits : List BlockId} {c : BlockId} {body loose : BlockExits} {parts : List Sketch}

theorem Continues.closed (hR : SpanFactsOf g R)
    (h : Continues R exits c body parts loose) :
    ∀ u ∈ blocksOf parts, ∀ v e, (v, e) ∈ g.transfers u → v ∈ blocksOf parts ∨ v ∈ exits := by
  cases h with
  | absent => simp
  | present _ _ hrun =>
    exact fun u hu v e he => ((hR hrun).closed u hu v e he).imp_right fun h => (hR hrun).targets v e h

theorem Continues.firstOf_eq (hR : SpanFactsOf g R)
    (h : Continues R exits c body parts loose) {v : BlockId} (hv : v ∈ blocksOf parts) : firstOf parts = c := by
  cases h with
  | absent => simp at hv
  | present _ _ hrun => exact (hR hrun).first_eq

theorem Continues.explained (hR : SpanFactsOf g R)
    (hE : SpanExplained g R) (h : Continues R exits c body parts loose) (hnodup : (blocksOf parts).Nodup) :
    Sequential g parts ∧ ∀ s ∈ parts, Explained g s := by
  cases h with
  | absent => exact ⟨Sequential.nil g, by simp⟩
  | present _ hstart hrun => exact hE hrun hnodup fun e he => hstart ((hR hrun).targets c e he)

end

section
variable {exits : List BlockId} {b m c : BlockId} {spans : List SpanSketch} {continuing : List Sketch}
  {loose ends : BlockExits}

theorem Constructs.explains_loop (hR : SpanFactsOf g R)
    (body : List.Forall₂ (fun transfer span =>
      Enters R (c :: m :: exits) transfer.1 [transfer.2] span.1 span.2) (g.transfers b) spans)
    (rest : Continues R (b :: m :: exits) c (mergeAll {} spans) continuing loose)
    (hnodup : (b :: (blocksOf (spans.flatMap (·.1)) ++ blocksOf continuing)).Nodup) {i j : Nat} {u v : BlockId}
    (hc : Crosses (.block b :: (part .loopBody {} (spans.flatMap (·.1)) ++ part .continuing {} continuing)) i j u v)
    (hstep : v ∈ g.successors u) :
    Explains view .loop (.block b :: (part .loopBody {} (spans.flatMap (·.1)) ++ part .continuing {} continuing))
      i j v := by
  have hbranch := loopBranchFacts hR body
  obtain ⟨hb, hnodup'⟩ := List.nodup_cons.mp hnodup
  have hdisjoint := (List.nodup_append'.mp hnodup').2.2
  obtain ⟨e, he⟩ := FlowGraph.mem_successors_iff.mp hstep
  have hleaves := fun p => hc.leaves (p := p) (by simpa using hnodup)
  obtain ⟨⟨p, hp, hu, -⟩, q, hq, hv⟩ := hc
  rcases loop_child hq with ⟨rfl, rfl⟩ | rfl | rfl
  · exact .back rfl rfl hq rfl (by simpa [view, eq_comm] using hv)
  · -- Into the body: only the header has such an edge.
    rw [blocks_node] at hv
    rcases loop_child hp with ⟨rfl, rfl⟩ | rfl | rfl
    · obtain rfl : u = b := by simpa using hu
      obtain ⟨⟨parts, ends'⟩, hspan, henter⟩ := exists_of_mem_left body he
      cases henter with
      | stop hexit => exact absurd hexit (hbranch.outside v hv)
      | go hstart hrun =>
        have facts := hR hrun
        obtain ⟨s, inner, rfl⟩ := List.exists_cons_of_ne_nil facts.nonempty
        have hfirst : s.first = v := by simpa using facts.first_eq
        exact .body rfl rfl hq rfl (List.mem_flatMap.mpr ⟨_, hspan, List.mem_cons_self⟩) (congrArg some hfirst)
    · cases hleaves _ hp (by simpa using hv)
    · rcases rest.closed hR u (by simpa using hu) v e he with h | h
      · exact (hdisjoint hv h).elim
      · rcases List.mem_cons.mp h with rfl | h
        · exact absurd (List.mem_append_left _ hv) hb
        · exact absurd (List.mem_cons_of_mem _ h) (hbranch.outside v hv)
  · -- Into the continue part: the edge leads to the continue target, which the part starts at.
    rw [blocks_node] at hv
    have hsource : u ∈ b :: blocksOf (spans.flatMap (·.1)) →
        view.first? (.node .continuing {} continuing) = some v := fun hu => by
      rcases hbranch.closed u hu v e he with h | h
      · exact (hdisjoint h hv).elim
      · rcases List.mem_cons.mp (hbranch.targets v e h) with rfl | h
        · exact congrArg some (rest.firstOf_eq hR hv)
        · exact absurd (List.mem_cons_of_mem _ h) (rest.outside hR v hv)
    rcases loop_child hp with ⟨rfl, rfl⟩ | rfl | rfl
    · exact .continuing rfl hq rfl (hsource (List.mem_cons.mpr (Or.inl (by simpa using hu)))) (Or.inl rfl)
    · exact .continuing rfl hq rfl (hsource (List.mem_cons_of_mem _ (by simpa using hu))) (Or.inr ⟨_, hp, rfl⟩)
    · cases hleaves _ hp (by simpa using hv)

theorem Constructs.explained_loop (hR : SpanFactsOf g R) (hE : SpanExplained g R)
    (body : List.Forall₂ (fun transfer span =>
      Enters R (c :: m :: exits) transfer.1 [transfer.2] span.1 span.2) (g.transfers b) spans)
    (rest : Continues R (b :: m :: exits) c (mergeAll {} spans) continuing loose)
    (hnodup : (b :: (blocksOf (spans.flatMap (·.1)) ++ blocksOf continuing)).Nodup) :
    Explained g (.node .loop ends (.block b ::
      (part .loopBody {} (spans.flatMap (·.1)) ++ part .continuing {} continuing))) := by
  obtain ⟨hnodupBody, hnodupRest, -⟩ := List.nodup_append'.mp (List.nodup_cons.mp hnodup).2
  refine .node (fun i j u v hc hstep => explains_loop hR body rest hnodup hc hstep) fun s hs => ?_
  obtain ⟨i, hi⟩ := List.mem_iff_getElem?.mp hs
  rcases loop_child hi with ⟨-, rfl⟩ | rfl | rfl
  · exact .block b
  · have hspans : ∀ span ∈ spans, Sequential g span.1 ∧ ∀ s ∈ span.1, Explained g s := fun span hspan => by
      obtain ⟨_, -, henter⟩ := exists_of_mem_right body hspan
      exact henter.explained hR hE (nodup_span hnodupBody hspan)
    refine .part rfl (sequential_flatMap (f := fun transfer => [transfer.2]) (body.imp fun _ _ h => h.facts hR)
      (fun span hspan => (hspans span hspan).1) hnodupBody) fun s hs => ?_
    obtain ⟨span, hspan, hs⟩ := List.mem_flatMap.mp hs
    exact (hspans span hspan).2 s hs
  · obtain ⟨hseq, hin⟩ := rest.explained hR hE hnodupRest
    exact .part rfl hseq hin

end

/-! ### Selections -/

/-- No edge of a selection leads back to its header, unless it is a loose end. -/
theorem BranchFacts.not_header {exits : List BlockId} {b u : BlockId} {blocks : List BlockId} {loose : BlockExits}
    (h : BranchFacts g exits b blocks loose) (hb : b ∉ blocks) (hloose : ∀ e, ¬loose.Records b e)
    (hu : u ∈ b :: blocks) : b ∉ g.successors u := by
  intro hstep
  obtain ⟨e, he⟩ := FlowGraph.mem_successors_iff.mp hstep
  exact (h.closed u hu b e he).elim hb (hloose e)

section Sides
variable {exits sides : List BlockId} {b : BlockId} {spans : List SpanSketch} {ends : BlockExits}

/-- A child of an If is its header or one of its parts. -/
theorem ifThen_child {i : Nat} {p : Sketch}
    (h : (Sketch.block b :: spans.flatMap fun span => part .ifPart span.2 span.1)[i]? = some p) :
    (i = 0 ∧ p = .block b) ∨ (1 ≤ i ∧ ∃ span ∈ spans, p = .node .ifPart span.2 span.1) := by
  cases i with
  | zero => exact Or.inl ⟨rfl, by simpa using h.symm⟩
  | succ i =>
    obtain ⟨span, hspan, hp⟩ := List.mem_flatMap.mp (List.mem_of_getElem? (by simpa using h))
    refine Or.inr ⟨by omega, span, hspan, ?_⟩
    unfold part at hp
    split at hp <;> simp_all

theorem Constructs.explains_ifThen (hg : g.Linked) (hR : SpanFactsOf g R)
    (hsides : ∀ v, v ∈ g.successors b ↔ v ∈ sides)
    (arms : List.Forall₂ (fun side span => Enters R exits side (g.edgeBetween? b side).toList span.1 span.2)
      sides spans)
    (hnodup : (b :: blocksOf (spans.flatMap (·.1))).Nodup) (hloose : ∀ e, ¬(mergeAll {} spans).Records b e)
    {i j : Nat} {u v : BlockId}
    (hc : Crosses (.block b :: spans.flatMap fun span => part .ifPart span.2 span.1) i j u v)
    (hstep : v ∈ g.successors u) :
    Explains view .ifThen (.block b :: spans.flatMap fun span => part .ifPart span.2 span.1) i j v := by
  have hbranch := sideBranchFacts hg hR hsides arms
  have hnodupAll : (blocksOf (.block b :: spans.flatMap fun span => part .ifPart span.2 span.1)).Nodup := by
    simpa [blocksOf_armParts] using hnodup
  obtain ⟨e, he⟩ := FlowGraph.mem_successors_iff.mp hstep
  have hleaves := fun p => hc.leaves (p := p) hnodupAll
  obtain ⟨⟨p, hp, hu, -⟩, q, hq, hv⟩ := hc
  rcases ifThen_child hq with ⟨rfl, rfl⟩ | ⟨hj, span, hspan, rfl⟩
  · obtain rfl : v = b := by simpa using hv
    have hu' := mem_blocksOf.mpr ⟨p, List.mem_of_getElem? hp, hu⟩
    exact absurd hstep (hbranch.not_header (List.nodup_cons.mp hnodup).1 hloose (by simpa [blocksOf_armParts] using hu'))
  · rw [blocks_node] at hv
    have hexit : v ∉ exits := hbranch.outside v ((mem_blocksOf_flatMap fun _ => rfl).mpr ⟨_, hspan, hv⟩)
    rcases ifThen_child hp with ⟨rfl, rfl⟩ | ⟨-, span', hspan', rfl⟩
    · obtain rfl : u = b := by simpa using hu
      obtain ⟨⟨parts, ends'⟩, hspan', henter⟩ := exists_of_mem_left arms ((hsides v).mp hstep)
      cases henter with
      | stop hstop => exact absurd hstop hexit
      | go hstart hrun =>
        have facts := hR hrun
        -- The arm that starts at the target is the one that has it.
        have hmem : Sketch.node .ifPart ends' parts ∈
            Sketch.block u :: spans.flatMap fun span => part .ifPart span.2 span.1 := by
          refine List.mem_cons_of_mem _ (List.mem_flatMap.mpr ⟨_, hspan', ?_⟩)
          simp [part, facts.nonempty]
        have hsame := part_unique hnodupAll hmem (List.mem_of_getElem? hq) (by simpa using facts.start_mem)
          (by simpa using hv)
        exact .arm rfl rfl hj hq (congrArg some (by rw [← hsame, first_node, facts.first_eq]))
    · obtain ⟨_, -, henter⟩ := exists_of_mem_right arms hspan'
      have facts := henter.facts hR
      rcases facts.closed u (by simpa using hu) v e he with h | h
      · cases hleaves _ hp (by simpa using h)
      · exact absurd (facts.targets v e h) hexit

theorem Constructs.explained_ifThen (hg : g.Linked) (hR : SpanFactsOf g R) (hE : SpanExplained g R)
    (hsides : ∀ v, v ∈ g.successors b ↔ v ∈ sides)
    (arms : List.Forall₂ (fun side span => Enters R exits side (g.edgeBetween? b side).toList span.1 span.2)
      sides spans)
    (hnodup : (b :: blocksOf (spans.flatMap (·.1))).Nodup) (hloose : ∀ e, ¬(mergeAll {} spans).Records b e) :
    Explained g (.node .ifThen ends (.block b :: spans.flatMap fun span => part .ifPart span.2 span.1)) := by
  refine .node (fun i j u v hc hstep => explains_ifThen hg hR hsides arms hnodup hloose hc hstep) fun s hs => ?_
  obtain ⟨i, hi⟩ := List.mem_iff_getElem?.mp hs
  rcases ifThen_child hi with ⟨-, rfl⟩ | ⟨-, span, hspan, rfl⟩
  · exact .block b
  · obtain ⟨_, -, henter⟩ := exists_of_mem_right arms hspan
    obtain ⟨hseq, hparts⟩ := henter.explained hR hE (nodup_span (List.nodup_cons.mp hnodup).2 hspan)
    exact .part rfl hseq hparts

end Sides

section Cases
variable {targets exits : List BlockId} {arms ordered : List ArmSketch} {k l : Nat} {a a' : ArmSketch}

/-- Two cases that have a block in common are the same. -/
theorem arm_unique (hnodup : (blocksOf (ordered.map ArmSketch.sketch)).Nodup) (ha : ordered[k]? = some a)
    (ha' : ordered[l]? = some a') {x : BlockId} (hx : x ∈ blocksOf a.parts) (hx' : x ∈ blocksOf a'.parts) : k = l := by
  have hk : (ordered.map ArmSketch.sketch)[k]? = some a.sketch := by simp [ha]
  have hl : (ordered.map ArmSketch.sketch)[l]? = some a'.sketch := by simp [ha']
  exact index_unique hnodup hk hl (by simpa [ArmSketch.sketch] using hx) (by simpa [ArmSketch.sketch] using hx')

variable (hR : SpanFactsOf g R) (parsed : List.Forall₂ (ArmOf R targets exits) targets arms) (same : ordered.Perm arms)
include parsed same

theorem exists_armOf (ha : a ∈ ordered) : ∃ t ∈ targets, ArmOf R targets exits t a :=
  exists_of_mem_right parsed (same.mem_iff.mp ha)

include hR

theorem arm_facts (ha : a ∈ ordered) : SpanFacts g (targets ++ exits) a.target a.parts a.loose := by
  obtain ⟨t, -, h⟩ := exists_armOf parsed same ha
  rw [h.target_eq]
  exact hR h.span

/-- A loose end of a case that leads to no exit of the switch leads to the case behind it. -/
theorem arm_falls (follows : Follows ordered) (ha : ordered[k]? = some a) {v : BlockId} {e : EdgeId}
    (hrec : a.loose.Records v e) (hv : v ∉ exits) : ∃ a', ordered[k + 1]? = some a' ∧ a'.target = v := by
  obtain ⟨t, -, h⟩ := exists_armOf parsed same (List.mem_of_getElem? ha)
  have hv' := (List.mem_append.mp ((hR h.span).targets v e hrec)).resolve_right hv
  exact follows k a v ha (h.fallsInto?_eq_some_iff.mpr ⟨hrec.mem_targetList, hv'⟩)

/-- A case with an edge back to its start would have to come after itself. -/
theorem arm_not_self (follows : Follows ordered) (hnodup : (blocksOf (ordered.map ArmSketch.sketch)).Nodup)
    (ha : a ∈ ordered) (hexit : a.target ∉ exits) : ∀ e, ¬a.loose.Records a.target e := by
  intro e he
  obtain ⟨k, hk⟩ := List.mem_iff_getElem?.mp ha
  obtain ⟨a', hk', htarget⟩ := arm_falls hR parsed same follows hk he hexit
  have hstart' := (arm_facts hR parsed same (List.mem_of_getElem? hk')).start_mem
  have hsame := arm_unique hnodup hk hk' (arm_facts hR parsed same ha).start_mem (htarget ▸ hstart')
  omega

end Cases

section
variable {targets exits : List BlockId} {b : BlockId} {arms ordered : List ArmSketch} {ends : BlockExits}

/-- The span of a case has each of its blocks once and does not lead back to its start. -/
theorem arm_span (hR : SpanFactsOf g R)
    (parsed : List.Forall₂ (ArmOf R (targets.filter (· ∉ exits)) exits) (targets.filter (· ∉ exits)) arms)
    (same : ordered.Perm arms) (follows : Follows ordered)
    (hnodup : (blocksOf (ordered.map ArmSketch.sketch)).Nodup) {a : ArmSketch} (ha : a ∈ ordered) :
    R (targets.filter (· ∉ exits) ++ exits) a.target a.parts a.loose ∧ (blocksOf a.parts).Nodup ∧
      ∀ e, ¬a.loose.Records a.target e := by
  obtain ⟨t, ht, h⟩ := exists_armOf parsed same ha
  have hexit : a.target ∉ exits := by simpa [h.target_eq] using (List.mem_filter.mp ht).2
  have hparts : (blocksOf a.parts).Nodup := by
    simpa [ArmSketch.sketch] using nodup_blocks hnodup (List.mem_map_of_mem ha)
  exact ⟨h.target_eq ▸ h.span, hparts, arm_not_self hR parsed same follows hnodup ha hexit⟩

/-- A child of a Switch is its header or one of its cases. -/
theorem switch_child {i : Nat} {p : Sketch} (h : (Sketch.block b :: ordered.map ArmSketch.sketch)[i]? = some p) :
    (i = 0 ∧ p = .block b) ∨ ∃ k a, i = k + 1 ∧ ordered[k]? = some a ∧ p = a.sketch := by
  cases i with
  | zero => exact Or.inl ⟨rfl, by simpa using h.symm⟩
  | succ k =>
    rw [List.getElem?_cons_succ, List.getElem?_map, Option.map_eq_some_iff] at h
    obtain ⟨a, ha, rfl⟩ := h
    exact Or.inr ⟨k, a, rfl, ha, rfl⟩

theorem Constructs.explains_switch (hg : g.Linked) (hR : SpanFactsOf g R)
    (htargets : ∀ v, v ∈ g.successors b ↔ v ∈ targets)
    (parsed : List.Forall₂ (ArmOf R (targets.filter (· ∉ exits)) exits) (targets.filter (· ∉ exits)) arms)
    (same : ordered.Perm arms) (follows : Follows ordered)
    (hnodup : (b :: blocksOf (ordered.map ArmSketch.sketch)).Nodup)
    (hloose : ∀ e, ¬(switchExits g b targets exits arms).Records b e) {i j : Nat} {u v : BlockId}
    (hc : Crosses (.block b :: ordered.map ArmSketch.sketch) i j u v) (hstep : v ∈ g.successors u) :
    Explains view .switch (.block b :: ordered.map ArmSketch.sketch) i j v := by
  have hbranch := armBranchFacts hg hR htargets parsed same
  obtain ⟨hb, hnodupArms⟩ := List.nodup_cons.mp hnodup
  obtain ⟨e, he⟩ := FlowGraph.mem_successors_iff.mp hstep
  have hleaves := fun p => hc.leaves (p := p) (by simpa using hnodup)
  obtain ⟨⟨p, hp, hu, -⟩, q, hq, hv⟩ := hc
  rcases switch_child hq with ⟨rfl, rfl⟩ | ⟨l, a, rfl, ha, rfl⟩
  · obtain rfl : v = b := by simpa using hv
    have hu' := mem_blocksOf.mpr ⟨p, List.mem_of_getElem? hp, hu⟩
    exact absurd hstep (hbranch.not_header hb hloose (by simpa using hu'))
  · have hv' : v ∈ blocksOf a.parts := by simpa [ArmSketch.sketch] using hv
    have hexit : v ∉ exits := hbranch.outside v (mem_blocksOf_arms.mpr ⟨a, List.mem_of_getElem? ha, hv'⟩)
    -- Whatever case the target starts is the case that has it.
    have hstarts : ∀ {k a'}, ordered[k]? = some a' → a'.target = v → k = l ∧ view.first? a.sketch = some v := by
      rintro k a' hk rfl
      have facts := arm_facts hR parsed same (List.mem_of_getElem? hk)
      obtain rfl := arm_unique hnodupArms hk ha facts.start_mem hv'
      obtain rfl : a' = a := Option.some.inj (hk.symm.trans ha)
      exact ⟨rfl, congrArg some facts.first_eq⟩
    rcases switch_child hp with ⟨rfl, rfl⟩ | ⟨k, a', rfl, ha', rfl⟩
    · obtain rfl : u = b := by simpa using hu
      have hcase : v ∈ targets.filter (· ∉ exits) := by simpa using ⟨(htargets v).mp hstep, hexit⟩
      obtain ⟨a', hmem, h⟩ := exists_of_mem_left parsed hcase
      obtain ⟨k, hk⟩ := List.mem_iff_getElem?.mp (same.mem_iff.mpr hmem)
      exact .case rfl (Or.inl rfl) (by omega) hq (hstarts hk h.target_eq).2
    · have hu' : u ∈ blocksOf a'.parts := by simpa [ArmSketch.sketch] using hu
      rcases (arm_facts hR parsed same (List.mem_of_getElem? ha')).closed u hu' v e he with h | h
      · cases hleaves _ hp (by simpa [ArmSketch.sketch] using h)
      · obtain ⟨a'', hk, htarget⟩ := arm_falls hR parsed same follows ha' h hexit
        obtain ⟨rfl, hfirst⟩ := hstarts hk htarget
        exact .case rfl (Or.inr rfl) (by omega) hq hfirst

theorem Constructs.explained_switch (hg : g.Linked) (hR : SpanFactsOf g R) (hE : SpanExplained g R)
    (htargets : ∀ v, v ∈ g.successors b ↔ v ∈ targets)
    (parsed : List.Forall₂ (ArmOf R (targets.filter (· ∉ exits)) exits) (targets.filter (· ∉ exits)) arms)
    (same : ordered.Perm arms) (follows : Follows ordered)
    (hnodup : (b :: blocksOf (ordered.map ArmSketch.sketch)).Nodup)
    (hloose : ∀ e, ¬(switchExits g b targets exits arms).Records b e) :
    Explained g (.node .switch ends (.block b :: ordered.map ArmSketch.sketch)) := by
  refine .node (fun i j u v hc hstep => explains_switch hg hR htargets parsed same follows hnodup hloose hc hstep)
    (List.forall_mem_cons.mpr ⟨.block b, fun s hs => ?_⟩)
  obtain ⟨a, ha, rfl⟩ := List.mem_map.mp hs
  obtain ⟨hspan, hnodupParts, hself⟩ := arm_span hR parsed same follows (List.nodup_cons.mp hnodup).2 ha
  obtain ⟨hseq, hparts⟩ := hE hspan hnodupParts hself
  exact .part rfl hseq hparts

end

/-! ### Spans -/

theorem Constructs.explained (hg : g.Linked) (hR : SpanFactsOf g R) (hE : SpanExplained g R) {exits : List BlockId}
    {b : BlockId} {sketch : Sketch} {loose : BlockExits} (h : Constructs g R exits b sketch loose)
    (hnodup : sketch.blocks.Nodup) (hloose : ∀ e, ¬loose.Records b e) : Explained g sketch := by
  cases h with
  | leaving => exact .block b
  | plain => exact .block b
  | loop _ _ _ _ _ body rest => exact explained_loop hR hE body rest (by simpa using hnodup)
  | ifThen found _ _ _ ends labels resolved arms =>
    exact explained_ifThen hg hR hE (hg.mem_successors_conditional found ends labels resolved) arms
      (by simpa [blocksOf_armParts] using hnodup) hloose
  | switch found _ _ _ ends labels defaultBlock resolved targets_eq parsed same follows =>
    refine explained_switch hg hR hE (fun v => ?_) parsed same follows (by simpa using hnodup) hloose
    rw [hg.mem_successors_switch found ends labels defaultBlock resolved, targets_eq, mem_switchTargets]

/-- All edges of a block that opens no construct are loose ends. -/
theorem Constructs.records_of_block {exits : List BlockId} {b x : BlockId} {loose : BlockExits} (hg : g.Linked)
    (h : Constructs g R exits b (.block x) loose) {v : BlockId} {e : EdgeId} (he : (v, e) ∈ g.transfers x) :
    x = b ∧ loose.Records v e := by
  cases h with
  | leaving found _ leaves => simp [hg.transfers_eq_nil_of_leaving found leaves] at he
  | plain => exact ⟨rfl, records_plainExits.mpr he⟩

/-- A construct in front of a sequence that goes on where the construct does. -/
theorem Constructs.sequential (hg : g.Linked) {exits : List BlockId} {b : BlockId} {child : Sketch} {rest : List Sketch}
    {loose : BlockExits} (h : Constructs g R exits b child loose) (hloose : ∀ e, ¬loose.Records b e)
    (hrest : Sequential g rest)
    (hon : ∀ k q u v, rest[k]? = some q → u ∈ child.blocks → v ∈ q.blocks → v ∈ g.successors u → k = 0 ∧ q.first = v)
    (hback : ∀ u ∈ blocksOf rest, ∀ v ∈ child.blocks, v ∉ g.successors u) : Sequential g (child :: rest) := by
  rintro i j u v ⟨⟨p, hp, hu, hself⟩, q, hq, hv⟩ hstep
  cases i with
  | zero =>
    obtain rfl : child = p := by simpa using hp
    cases j with
    | zero =>
      obtain rfl : child = q := by simpa using hq
      obtain rfl := hself rfl
      obtain rfl : v = u := by simpa using hv
      obtain ⟨e, he⟩ := FlowGraph.mem_successors_iff.mp hstep
      obtain ⟨rfl, hrec⟩ := h.records_of_block hg he
      exact absurd hrec (hloose e)
    | succ k =>
      rw [List.getElem?_cons_succ] at hq
      obtain ⟨rfl, hfirst⟩ := hon k q u v hq hu hv hstep
      exact ⟨rfl, q, by simpa using hq, hfirst⟩
  | succ i =>
    rw [List.getElem?_cons_succ] at hp
    cases j with
    | zero =>
      obtain rfl : child = q := by simpa using hq
      exact absurd hstep (hback u (mem_blocksOf.mpr ⟨p, List.mem_of_getElem? hp, hu⟩) v hv)
    | succ j =>
      rw [List.getElem?_cons_succ] at hq
      obtain ⟨hj, q', hq', hfirst⟩ := hrest i j u v ⟨⟨p, hp, hu, fun h => hself (by rw [h])⟩, q, hq, hv⟩ hstep
      exact ⟨by rw [hj], q', by simpa using hq', hfirst⟩

end

/-- The edges of a span lead from part to part, and those inside its parts are explained. -/
theorem Spans.explained {g : FlowGraph} (hg : g.Linked) (budget : Nat) : SpanExplained g (Spans g budget) := by
  refine Spans.induction (fun {budget _ _ _ _} ih hchild hnone hnodup hloose => ?_)
    (fun {budget _ _ _ _ next rest _} ih hchild hnext hrest hnodup hloose => ?_) budget
  · have hstart := not_records_of_kept hloose (by simp [hnone])
    refine ⟨hchild.sequential hg hstart (Sequential.nil g) (by simp) (by simp), List.forall_mem_singleton.mpr ?_⟩
    exact hchild.explained hg (Spans.facts hg budget) ih (by simpa using hnodup) hstart
  · have facts := hchild.facts hg (Spans.facts hg budget)
    have restFacts := Spans.facts hg budget hrest
    obtain ⟨-, hexits, honly⟩ := of_onward_eq hnext
    rw [blocksOf_cons] at hnodup
    obtain ⟨hnodupChild, hnodupRest, hdisjoint⟩ := List.nodup_append'.mp hnodup
    have hstart := facts.not_records_start hnext restFacts hdisjoint hloose
    obtain ⟨hseq, hparts⟩ := ih hrest hnodupRest fun e he => hexits (restFacts.targets next e he)
    refine ⟨hchild.sequential hg hstart hseq (fun k q u v hq hu hv hstep => ?_) fun u hu v hv hstep => ?_, ?_⟩
    · -- From the first part on: the target is where the rest starts.
      obtain ⟨e, he⟩ := FlowGraph.mem_successors_iff.mp hstep
      have hv' : v ∈ blocksOf rest := mem_blocksOf.mpr ⟨q, List.mem_of_getElem? hq, hv⟩
      rcases facts.closed u hu v e he with h | h
      · exact (hdisjoint h hv').elim
      · have hvn := honly v e h (restFacts.not_mem_exits hexits v hv')
        obtain ⟨s, rest', rfl, hfirst, hmem⟩ := restFacts.head
        have hk : 0 = k := index_unique hnodupRest List.getElem?_cons_zero hq (hvn ▸ hmem) hv
        subst hk
        obtain rfl : s = q := by simpa using hq
        exact ⟨rfl, hfirst.trans hvn.symm⟩
    · -- Back from the rest: the target would be an exit in the first part, so its start.
      obtain ⟨e, he⟩ := FlowGraph.mem_successors_iff.mp hstep
      rcases restFacts.closed u hu v e he with h | h
      · exact hdisjoint hv h
      · have hvs := facts.outside v hv (restFacts.targets v e h)
        exact hloose e (Exits.records_merge.mpr (Or.inr (hvs ▸ h)))
    · refine List.forall_mem_cons.mpr ⟨?_, hparts⟩
      exact hchild.explained hg (Spans.facts hg budget) ih hnodupChild hstart

end FlowTree
