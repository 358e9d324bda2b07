import FlowTree.Proofs.Structuring.Nodes
import FlowTree.Proofs.Tree.Explained

/-!
Rules for structuring the constructs, one for each of them. A rule says how a construct ends from how the
spans nested in it end. What the spans and the rejections are is left to those who use it: `Q`, `S` and `P`
stand for what is known of the sketches and the loose ends of a span, and every way to reject asks for a
reason. So the same rules serve to find out what a tree looks like and to show that there is one.
-/

namespace FlowTree

open Sketch

/-- The sketch is a node of the given kind. -/
def Sketch.isOfKind (k : Kind) : Sketch → Bool
  | .node kind _ _ => kind = k
  | .block _ => false

section
variable {kindOf : NodeId → Option Kind} (header : BlockId)

theorem shapeFault?_sequence {kind : Kind} (hkind : kind.isSequence = true) {children : List Child}
    (hne : children ≠ []) : shapeFault? kind children kindOf = none := by
  cases kind <;> simp_all [Kind.isSequence, shapeFault?]

theorem shapeFault?_ifThen {arms : List Child} (harms : ∀ c ∈ arms, c.isOfKind kindOf .ifPart = true)
    (hlength : arms.length ≤ 2) : shapeFault? .ifThen (.block header :: arms) kindOf = none := by
  have hlength' : ¬3 < (Child.block header :: arms).length := by
    rw [List.length_cons]
    omega
  have hall : arms.all (·.isOfKind kindOf .ifPart) = true := List.all_eq_true.mpr harms
  simp only [shapeFault?, List.tail_cons, hall, if_neg hlength']
  rfl

theorem shapeFault?_switch {cases : List Child} (hcases : ∀ c ∈ cases, c.isOfKind kindOf .case = true) :
    shapeFault? .switch (.block header :: cases) kindOf = none := by
  have hall : cases.all (·.isOfKind kindOf .case) = true := List.all_eq_true.mpr hcases
  simp only [shapeFault?, List.tail_cons, hall]
  rfl

/-- A child has at most one kind. -/
theorem isOfKind_false {c : Child} {k k' : Kind} (h : c.isOfKind kindOf k = true) (hne : k ≠ k') :
    c.isOfKind kindOf k' = false := by
  cases c <;> simp_all [Child.isOfKind]

theorem shapeFault?_loop {body continuing : List Child} (hbody : body.length ≤ 1)
    (hbodyKind : ∀ c ∈ body, c.isOfKind kindOf .loopBody = true) (hcontinuing : continuing.length ≤ 1)
    (hcontinuingKind : ∀ c ∈ continuing, c.isOfKind kindOf .continuing = true) :
    shapeFault? .loop (.block header :: (body ++ continuing)) kindOf = none := by
  have hdrop : dropOfKind kindOf .loopBody (body ++ continuing) = continuing := by
    match body with
    | [c] => simp [dropOfKind, hbodyKind c (List.mem_singleton_self c)]
    | [] =>
      match continuing with
      | [] => rfl
      | c :: _ => simp [dropOfKind, isOfKind_false (hcontinuingKind c List.mem_cons_self)]
    | _ :: _ :: _ => simp at hbody
  have hdrop' : dropOfKind kindOf .continuing continuing = [] := by
    match continuing with
    | [] => rfl
    | [c] => simp [dropOfKind, hcontinuingKind c (List.mem_singleton_self c)]
    | _ :: _ :: _ => simp at hcontinuing
  simp only [shapeFault?, List.tail_cons, hdrop, hdrop']
  rfl

end

namespace Structuring

section
variable {g : FlowGraph} {halts : Halt → Draft → Prop} {d d₀ : Draft} {nested : SpanOf}

/-- The step draws a span at the given depth, with `Q` for its sketches and loose ends. -/
def Runs (x : Structuring SpanResult) (d : Draft) (depth : Nat) (Q : List Sketch → BlockExits → Prop)
    (halts : Halt → Draft → Prop) : Prop :=
  Ends x d (fun r d' => ∃ pieces : List Piece, r.1 = pieces.map Piece.child ∧ (∀ p ∈ pieces, p.depth = depth) ∧
    Drawn d d' pieces ∧ Q (pieces.map Piece.sketch) r.2) halts

/-- The step draws a block and the construct that it opens, with `Q` for the sketch and the loose ends. What is
drawn since `d₀` is this one piece. -/
def RunsOne (x : Structuring (Child × BlockExits)) (d₀ d : Draft) (depth : Nat) (Q : Sketch → BlockExits → Prop)
    (halts : Halt → Draft → Prop) : Prop :=
  Ends x d (fun r d' => ∃ piece : Piece, r.1 = piece.child ∧ piece.depth = depth ∧ Drawn d₀ d' [piece] ∧
    Q piece.sketch r.2) halts

/-- Structuring can go on from a later draft, with the given blocks visited since. -/
structure Visited (g : FlowGraph) (halts : Halt → Draft → Prop) (d : Draft) (blocks : List BlockId) (d' : Draft) :
    Prop where
  ready : Ready g halts d'
  perm : d.unvisited.Perm (blocks ++ d'.unvisited)

theorem Drawn.visitedSince {d' : Draft} {pieces : List Piece} (h : Drawn d d' pieces) (hready : Ready g halts d)
    {blocks : List BlockId} (heq : blocksOf (pieces.map Piece.sketch) = blocks) : Visited g halts d blocks d' :=
  ⟨h.ready hready, heq ▸ h.visited⟩

theorem Runs.imp {x : Structuring SpanResult} {depth : Nat} {Q Q' : List Sketch → BlockExits → Prop}
    (h : Runs x d depth Q halts) (himp : ∀ parts loose, Q parts loose → Q' parts loose) : Runs x d depth Q' halts :=
  Ends.imp h fun _ _ ⟨pieces, hchildren, hdepth, hdrawn, hq⟩ => ⟨pieces, hchildren, hdepth, hdrawn, himp _ _ hq⟩

theorem RunsOne.imp {x : Structuring (Child × BlockExits)} {depth : Nat} {Q Q' : Sketch → BlockExits → Prop}
    (h : RunsOne x d₀ d depth Q halts) (himp : ∀ s loose, Q s loose → Q' s loose) : RunsOne x d₀ d depth Q' halts :=
  Ends.imp h fun _ _ ⟨piece, hchild, hdepth, hdrawn, hq⟩ => ⟨piece, hchild, hdepth, hdrawn, himp _ _ hq⟩

theorem Draws.isOfKind {c : Child} {depth : Nat} {s : Sketch} (h : Draws d c depth s) (k : Kind) :
    c.isOfKind (fun id => (d.nodes[id]?).map (·.kind)) k = s.isOfKind k := by
  cases h with
  | block => rfl
  | node found => simp [Child.isOfKind, Sketch.isOfKind, found]

/-- Pieces that look like nodes of a kind are nodes of that kind. -/
theorem Drawn.isOfKind {d' : Draft} {pieces all : List Piece} (h : Drawn d d' all) {k : Kind}
    (hkind : ∀ s ∈ pieces.map Piece.sketch, s.isOfKind k = true) (hall : ∀ p ∈ pieces, p ∈ all) :
    ∀ c ∈ pieces.map Piece.child, c.isOfKind (fun id => (d'.nodes[id]?).map (·.kind)) k = true := by
  intro c hc
  obtain ⟨p, hp, rfl⟩ := List.mem_map.mp hc
  rw [(h.draws p (hall p hp)).isOfKind]
  exact hkind _ (List.mem_map_of_mem hp)

theorem isOfKind_of_mem_part {kind : Kind} {exits : BlockExits} {parts : List Sketch} {s : Sketch}
    (h : s ∈ part kind exits parts) : s.isOfKind kind = true := by
  unfold part at h
  split at h
  · cases h
  · rw [List.mem_singleton.mp h]
    simp [Sketch.isOfKind]

theorem length_part_le (kind : Kind) (exits : BlockExits) (parts : List Sketch) :
    (part kind exits parts).length ≤ 1 := by
  unfold part
  split <;> simp

theorem length_le_of_part {pieces : List Piece} {kind : Kind} {exits : BlockExits} {parts : List Sketch}
    (h : pieces.map Piece.sketch = part kind exits parts) : (pieces.map Piece.child).length ≤ 1 := by
  have hlength : pieces.length = (part kind exits parts).length := by rw [← h, List.length_map]
  rw [List.length_map, hlength]
  exact length_part_le kind exits parts

/-- A span becomes a part, which is missing when the span is empty. -/
theorem addPart_ends {pieces : List Piece} {kind : Kind} {depth : Nat} {exits : BlockExits}
    (hready : Ready g halts d₀) (h : Drawn d₀ d pieces) (hkind : kind.isSequence = true)
    (hdepth : ∀ p ∈ pieces, p.depth = depth + 1) :
    Ends (addPart g kind (pieces.map Piece.child) depth exits) d (fun children d' => ∃ new : List Piece,
      children = new.map Piece.child ∧ (∀ p ∈ new, p.depth = depth) ∧ Drawn d₀ d' new ∧
      new.map Piece.sketch = part kind exits (pieces.map Piece.sketch)) halts := by
  unfold addPart
  by_cases hne : pieces = []
  · subst hne
    exact Ends.pure ⟨[], rfl, by simp, h, by simp [part]⟩
  · have hempty : (pieces.map Piece.child).isEmpty = false := by simpa using hne
    rw [hempty]
    have h' : Drawn d₀ d (pieces ++ []) := by simpa using h
    refine Ends.bind ((addNode_ends kind depth exits hready h' hne (shapeFault?_sequence hkind (by simpa using hne))
      hdepth).imp fun id d' hd' => Ends.pure ⟨[_], rfl, by simp, hd', ?_⟩)
    simp [part, hne]

/-! ### The rule of each construct -/

/-- A block is visited for the first time, or there is a reason to reject. -/
theorem visit_ends (hg : g.Linked) {b : BlockId} (hb : b < g.size)
    (hreject : b ∉ d.unvisited → ∀ r, halts (.rejected r) d) :
    Ends (visit g b) d (fun _ d' => b ∈ d.unvisited ∧ ∀ depth, Drawn d d' [Piece.block b depth]) halts := by
  obtain ⟨block, found⟩ := FlowGraph.block?_eq_some_of_lt hb
  refine Ends.bind (Ends.item found (Ends.bind (Ends.get ?_)))
  split
  · rename_i hmem
    refine Ends.set ⟨hmem, fun depth => ?_⟩
    constructor
    case visited => simpa [Piece.block] using List.perm_cons_erase hmem
    case draws => simpa [Piece.block] using Draws.block b depth
    case frame => simp
    case held => exact fun id hle hlt => absurd hlt (Nat.not_lt.mpr hle)
    all_goals simp [Piece.block, Piece.inner]
  · exact Ends.reject hg hb (by simp) (hreject ‹_› _)

/-- The loose ends of a block by itself. -/
theorem blockExits_ends (hg : g.Linked) {b : BlockId} {block : Block} (found : g.block? b = some block)
    {ok : BlockExits → Draft → Prop}
    (h : ok (if block.isLeaving then { returnOrKill := [b] } else plainExits g b) d) :
    Ends (blockExits g b) d ok halts := by
  obtain ⟨i, ends⟩ := hg.terminator? found
  have hleaving : block.isLeaving = i.op.isReturnOrKill := by simp [Block.isLeaving, ends]
  rw [hleaving] at h
  refine Ends.bind (Ends.terminatorOf found ends ?_)
  split
  · rw [if_pos ‹_›] at h
    exact Ends.pure h
  · rw [if_neg ‹_›] at h
    refine Ends.bind (Ends.item (hg.outgoing (FlowGraph.lt_of_block?_eq_some found)) ?_)
    rw [← hg.map_transfers, List.foldlM_map]
    refine (Ends.foldlM (I := fun done acc d' => d' = d ∧
      acc = done.foldl (fun x (t : BlockId × EdgeId) => x.add t.1 t.2) {}) ⟨rfl, rfl⟩
      fun done t rest acc d' hitems hI => ?_).imp fun acc d' hI => ?_
    · have ht : t ∈ g.transfers b := hitems ▸ by simp
      refine Ends.bind (Ends.targetOf (FlowGraph.mem_transfers.mp ht).2 (Ends.pure ⟨hI.1, ?_⟩))
      rw [List.foldl_append, hI.2]
      rfl
    · obtain ⟨rfl, rfl⟩ := hI
      exact h

theorem enter_runs {start : BlockId} {sources : List EdgeId} {exits : List BlockId} {depth : Nat}
    {Q : List Sketch → BlockExits → Prop} (hstop : start ∈ exits → Q [] (Exits.addAll {} start sources))
    (hgo : start ∉ exits → Runs (nested start exits depth) d depth Q halts) :
    Runs (enter nested start sources exits depth) d depth Q halts := by
  unfold enter
  split
  · exact Ends.pure ⟨[], rfl, by simp, Drawn.refl d, hstop ‹_›⟩
  · exact hgo ‹_›

/-- The spans that a loop's header leads to, one after the other. -/
theorem loopSpans_runs (hg : g.Linked) {b : BlockId} (hb : b < g.size) {exits : List BlockId} {depth : Nat}
    (hready : Ready g halts d) {S : BlockId × EdgeId → SpanSketch → Prop}
    (hspan : ∀ done t rest spans d', g.transfers b = done ++ t :: rest → List.Forall₂ S done spans →
      Visited g halts d (blocksOf (spans.flatMap (·.1))) d' →
      Runs (enter nested t.1 [t.2] exits depth) d' depth (fun parts loose => S t (parts, loose)) halts) :
    Runs (loopSpans g nested b exits depth) d depth (fun parts loose => ∃ spans,
      List.Forall₂ S (g.transfers b) spans ∧ parts = spans.flatMap (·.1) ∧ loose = mergeAll {} spans) halts := by
  refine Ends.bind (Ends.item (hg.outgoing hb) ?_)
  rw [← hg.map_transfers, List.foldlM_map]
  refine (Ends.foldlM (I := fun done acc d' => ∃ (spans : List SpanSketch) (pieces : List Piece),
    List.Forall₂ S done spans ∧ acc.1 = pieces.map Piece.child ∧ (∀ p ∈ pieces, p.depth = depth) ∧
    Drawn d d' pieces ∧ pieces.map Piece.sketch = spans.flatMap (·.1) ∧ acc.2 = mergeAll {} spans)
    ⟨[], [], .nil, rfl, by simp, Drawn.refl d, rfl, rfl⟩ ?_).imp ?_
  · rintro done t rest ⟨body, loose⟩ d' hitems ⟨spans, pieces, hS, rfl, hdepth, hdrawn, hsketches, rfl⟩
    have ht : t ∈ g.transfers b := hitems ▸ by simp
    have hvisited := hdrawn.visitedSince hready (congrArg blocksOf hsketches)
    refine Ends.bind (Ends.targetOf (FlowGraph.mem_transfers.mp ht).2 (Ends.bind ?_))
    refine Ends.imp (hspan done t rest spans d' hitems hS hvisited) ?_
    rintro ⟨children, ends⟩ d'' ⟨more, rfl, hdepth', hdrawn', hS'⟩
    refine Ends.pure ⟨spans ++ [(more.map Piece.sketch, ends)], pieces ++ more, ?_, by simp, ?_,
      hdrawn.append hdrawn' hready, by simp [hsketches], by simp [mergeAll]⟩
    · exact List.rel_append hS (.cons hS' .nil)
    · simpa [or_imp, forall_and] using ⟨hdepth, hdepth'⟩
  · rintro ⟨body, loose⟩ d' ⟨spans, pieces, hS, rfl, hdepth, hdrawn, hsketches, rfl⟩
    exact ⟨pieces, rfl, hdepth, hdrawn, spans, hS, hsketches, rfl⟩

/-- The node of a loop is put together from its header and its parts. -/
theorem addLoop_runs {b : BlockId} {depth : Nat} (ends : BlockExits) {bodyPart continuePart : List Piece}
    {body continuing : List Sketch} (hready : Ready g halts d₀)
    (hdrawn : Drawn d₀ d (Piece.block b (depth + 1) :: bodyPart ++ continuePart))
    (hbodyDepth : ∀ p ∈ bodyPart, p.depth = depth + 1) (hcontinueDepth : ∀ p ∈ continuePart, p.depth = depth + 1)
    (hbody : bodyPart.map Piece.sketch = part .loopBody {} body)
    (hcontinuing : continuePart.map Piece.sketch = part .continuing {} continuing) :
    RunsOne (do
      let id ← addNode g .loop (.block b :: (bodyPart.map Piece.child ++ continuePart.map Piece.child)) depth ends
      Pure.pure (Child.node id, ends)) d₀ d depth (fun sketch ends' => ends' = ends ∧ sketch = .node .loop ends
        (.block b :: (part .loopBody {} body ++ part .continuing {} continuing))) halts := by
  have hbodyKinds := hdrawn.isOfKind (fun s hs => isOfKind_of_mem_part (hbody ▸ hs)) fun p hp => by simp [hp]
  have hcontinueKinds := hdrawn.isOfKind (fun s hs => isOfKind_of_mem_part (hcontinuing ▸ hs)) fun p hp => by simp [hp]
  have hshape := shapeFault?_loop b (length_le_of_part hbody) hbodyKinds (length_le_of_part hcontinuing) hcontinueKinds
  have hall : Drawn d₀ d ((Piece.block b (depth + 1) :: (bodyPart ++ continuePart)) ++ []) := by simpa using hdrawn
  have hnode := addNode_ends .loop depth ends hready hall (by simp) (by simpa [Piece.block] using hshape)
    (by simpa [Piece.block, or_imp, forall_and] using ⟨hbodyDepth, hcontinueDepth⟩)
  simp only [List.map_cons, List.map_append] at hnode
  refine Ends.bind (hnode.imp fun id d' hd' => Ends.pure ⟨_, rfl, rfl, hd', rfl, ?_⟩)
  simp [Piece.block, hbody, hcontinuing]

/-- A loop whose body and continue part are nested spans. The header has been visited since `d₀`. -/
theorem loop_runs {b : BlockId} {merge : Instruction} {exits : List BlockId} {depth : Nat} {mergeLabel continueLabel : Id}
    {m c : BlockId} (labels : merge.loopMerge? = some (mergeLabel, continueLabel))
    (mergeBlock : g.blockOf? mergeLabel = some m) (continueBlock : g.blockOf? continueLabel = some c)
    (hready : Ready g halts d₀) (hdrawn : Drawn d₀ d [Piece.block b (depth + 1)])
    {Q : List Sketch → BlockExits → Prop} {P : List Sketch → BlockExits → List Sketch → BlockExits → Prop}
    (hbody : Runs (loopSpans g nested b (c :: m :: exits) (depth + 2)) d (depth + 2) Q halts)
    (habsent : ∀ body loose, Q body loose → c ∉ loose.targetList ∨ c ∈ b :: m :: exits → P body loose [] loose)
    (hpresent : ∀ body loose d', Q body loose → Visited g halts d (blocksOf body) d' →
      c ∈ loose.targetList → c ∉ b :: m :: exits →
      Runs (nested c (b :: m :: exits) (depth + 2)) d' (depth + 2)
        (fun parts ends => P body loose parts ((loose.remove c).merge ends)) halts) :
    RunsOne (loop g nested b merge exits depth) d₀ d depth (fun sketch ends => ∃ body loose continuing loose',
      Q body loose ∧ P body loose continuing loose' ∧ ends = loose'.remove b ∧ sketch = .node .loop (loose'.remove b)
        (.block b :: (part .loopBody {} body ++ part .continuing {} continuing))) halts := by
  have hready' := hdrawn.ready hready
  unfold loop
  simp only [labels]
  refine Ends.bind (Ends.blockOf mergeBlock (Ends.bind (Ends.blockOf continueBlock (Ends.bind ?_))))
  refine Ends.imp hbody ?_
  rintro ⟨_, loose⟩ d₁ ⟨body, rfl, hbodyDepth, hbodyDrawn, hQ⟩
  refine Ends.bind ((addPart_ends hready' hbodyDrawn rfl hbodyDepth).imp ?_)
  rintro _ d₂ ⟨bodyPart, rfl, hpartDepth, hpartDrawn, hbodyPart⟩
  have hd₂ : Drawn d₀ d₂ (Piece.block b (depth + 1) :: bodyPart) := hdrawn.append hpartDrawn hready
  have hvisited : Visited g halts d (blocksOf (body.map Piece.sketch)) d₂ :=
    hpartDrawn.visitedSince hready' (by rw [hbodyPart, blocksOf_part])
  -- There is a continue part if the body leads to its target and the target is no exit.
  split
  · rename_i hgo
    have hgo : c ∈ loose.targetList ∧ c ∉ b :: m :: exits := by simpa [Exits.has_iff] using hgo
    refine Ends.bind (Ends.imp (enter_runs (fun h => absurd h hgo.2) fun _ =>
      hpresent (body.map Piece.sketch) loose d₂ hQ hvisited hgo.1 hgo.2) ?_)
    rintro ⟨_, ends⟩ d₃ ⟨span, rfl, hspanDepth, hspanDrawn, hP⟩
    refine Ends.bind ((addPart_ends hvisited.ready hspanDrawn rfl hspanDepth).imp ?_)
    rintro _ d₄ ⟨continuePart, rfl, hcontinueDepth, hcontinueDrawn, hcontinuePart⟩
    have hloop := addLoop_runs (((loose.remove c).merge ends).remove b) hready (hd₂.append hcontinueDrawn hready)
      hpartDepth hcontinueDepth hbodyPart hcontinuePart
    refine Ends.imp hloop ?_
    rintro _ _ ⟨piece, hchild, hdepth, hpiece, hends, hsketch⟩
    exact ⟨piece, hchild, hdepth, hpiece, _, loose, _, _, hQ, hP, hends, hsketch⟩
  · rename_i hstop
    have hP : P (body.map Piece.sketch) loose [] loose := by
      refine habsent _ loose hQ ?_
      by_contra hno
      rw [not_or, not_not] at hno
      exact hstop (by simpa [Exits.has_iff] using hno)
    have hnone : ([] : List Piece).map Piece.sketch = part .continuing {} [] := by simp [part]
    have hloop :=
      addLoop_runs (loose.remove b) hready (hd₂.append (Drawn.refl d₂) hready) hpartDepth (by simp) hbodyPart hnone
    refine Ends.imp hloop ?_
    rintro _ _ ⟨piece, hchild, hdepth, hpiece, hends, hsketch⟩
    exact ⟨piece, hchild, hdepth, hpiece, _, loose, [], loose, hQ, hP, hends, hsketch⟩

/-- The arms of a conditional branch are parts. -/
theorem length_arms_le (spans : List SpanSketch) :
    (spans.flatMap fun span => part .ifPart span.2 span.1).length ≤ spans.length := by
  induction spans with
  | nil => simp
  | cons span spans ih =>
    have := length_part_le .ifPart span.2 span.1
    rw [List.flatMap_cons, List.length_append, List.length_cons]
    omega

/-- A conditional branch whose arms are nested spans. The header has been visited since `d₀`. -/
theorem ifThen_runs {b : BlockId} {terminator : Instruction} {exits : List BlockId} {depth : Nat}
    {whenTrue whenFalse : Id} {sides : List BlockId}
    (labels : terminator.conditionalTargets? = some (whenTrue, whenFalse))
    (resolved : (if whenFalse = whenTrue then [whenTrue] else [whenTrue, whenFalse]).mapM g.blockOf? = some sides)
    (hready : Ready g halts d₀) (hdrawn : Drawn d₀ d [Piece.block b (depth + 1)]) {S : BlockId → SpanSketch → Prop}
    (hspan : ∀ done side rest spans d', sides = done ++ side :: rest → List.Forall₂ S done spans →
      Visited g halts d (blocksOf (spans.flatMap (·.1))) d' →
      Runs (enter nested side (g.edgeBetween? b side).toList exits (depth + 2)) d' (depth + 2)
        (fun parts loose => S side (parts, loose)) halts) :
    RunsOne (ifThen g nested b terminator exits depth) d₀ d depth (fun sketch ends => ∃ spans,
      List.Forall₂ S sides spans ∧ ends = mergeAll {} spans ∧ sketch = .node .ifThen (mergeAll {} spans)
        (.block b :: spans.flatMap fun span => part .ifPart span.2 span.1)) halts := by
  have hready' := hdrawn.ready hready
  have hsides : sides.length ≤ 2 := by
    rw [← (forall₂_of_mapM_some resolved).length_eq]
    split <;> simp
  unfold ifThen
  simp only [labels]
  refine Ends.bind (Ends.mapM_blockOf resolved (Ends.bind ?_))
  refine (Ends.foldlM (I := fun done acc d' => ∃ (spans : List SpanSketch) (pieces : List Piece),
    List.Forall₂ S done spans ∧ acc.1 = pieces.map Piece.child ∧ (∀ p ∈ pieces, p.depth = depth + 1) ∧
    Drawn d d' pieces ∧ pieces.map Piece.sketch = (spans.flatMap fun span => part .ifPart span.2 span.1) ∧
    acc.2 = mergeAll {} spans) ⟨[], [], .nil, rfl, by simp, Drawn.refl d, rfl, rfl⟩ ?_).imp ?_
  · rintro done side rest ⟨arms, loose⟩ d' hitems ⟨spans, pieces, hS, rfl, hdepth, hpieces, hsketches, rfl⟩
    have hvisited : Visited g halts d (blocksOf (spans.flatMap (·.1))) d' :=
      hpieces.visitedSince hready' (by rw [hsketches, blocksOf_armParts])
    refine Ends.bind (Ends.imp (hspan done side rest spans d' hitems hS hvisited) ?_)
    rintro ⟨_, ends⟩ d₁ ⟨span, rfl, hspanDepth, hspanDrawn, hS'⟩
    refine Ends.bind ((addPart_ends hvisited.ready hspanDrawn rfl hspanDepth).imp ?_)
    rintro _ d₂ ⟨arm, rfl, harmDepth, harmDrawn, harm⟩
    refine Ends.pure ⟨spans ++ [(span.map Piece.sketch, ends)], pieces ++ arm, ?_, by simp, ?_,
      hpieces.append harmDrawn hready', by simp [hsketches, harm], by simp [mergeAll]⟩
    · exact List.rel_append hS (.cons hS' .nil)
    · simpa [or_imp, forall_and] using ⟨hdepth, harmDepth⟩
  · rintro ⟨_, loose⟩ d' ⟨spans, arms, hS, rfl, hdepth, harms, hsketches, rfl⟩
    have hall : Drawn d₀ d' ((Piece.block b (depth + 1) :: arms) ++ []) := by simpa using hdrawn.append harms hready
    have hkinds : ∀ s ∈ arms.map Piece.sketch, s.isOfKind .ifPart = true := fun s hs => by
      rw [hsketches] at hs
      obtain ⟨span, -, hs⟩ := List.mem_flatMap.mp hs
      exact isOfKind_of_mem_part hs
    have hlength : (arms.map Piece.child).length ≤ 2 := by
      have hle := length_arms_le spans
      rw [← hsketches, List.length_map, ← hS.length_eq] at hle
      rw [List.length_map]
      omega
    have hnode := addNode_ends .ifThen depth (mergeAll {} spans) hready hall (by simp)
      (by simpa [Piece.block] using shapeFault?_ifThen b (hall.isOfKind hkinds fun p hp => by simp [hp]) hlength)
      (by simpa [Piece.block] using hdepth)
    refine Ends.bind (hnode.imp fun id d'' hd'' => Ends.pure ⟨_, rfl, rfl, hd'', spans, hS, rfl, ?_⟩)
    simp [Piece.block, hsketches]

/-- A span: the construct that its first block opens, and the rest of it where there is one block to go on at. -/
theorem span_runs (hg : g.Linked) {budget : Nat} {start : BlockId} {exits : List BlockId} {depth : Nat}
    (hstart : start < g.size) (hready : Ready g halts d) {Q : Sketch → BlockExits → Prop}
    {P : List Sketch → BlockExits → Prop}
    (hconstruct : RunsOne (construct g (span g budget) start exits depth) d d depth Q halts)
    (hstop : ∀ s loose, Q s loose → onward exits loose = [] → P [s] (kept exits loose))
    (hgo : ∀ s loose next d', Q s loose → onward exits loose = [next] → Visited g halts d s.blocks d' →
      Runs (span g budget next exits depth) d' depth (fun rest ends => P (s :: rest) ((kept exits loose).merge ends)) halts)
    (hmany : ∀ s loose first second more, Q s loose → onward exits loose = first :: second :: more →
      first < g.size ∧ second < g.size ∧ ∀ r d', halts (.rejected r) d') :
    Runs (span g (budget + 1) start exits depth) d depth P halts := by
  refine Ends.bind (Ends.imp hconstruct ?_)
  rintro ⟨_, loose⟩ d₁ ⟨piece, rfl, hdepth, hdrawn, hQ⟩
  cases honward : onward exits loose with
  | nil =>
    simp only [honward]
    exact Ends.pure ⟨[piece], rfl, by simpa using hdepth, hdrawn, hstop _ loose hQ honward⟩
  | cons next more =>
    cases more with
    | nil =>
      simp only [honward]
      have hvisited : Visited g halts d piece.sketch.blocks d₁ := hdrawn.visitedSince hready (by simp)
      refine Ends.bind (Ends.imp (hgo _ loose next d₁ hQ honward hvisited) ?_)
      rintro ⟨_, ends⟩ d₂ ⟨pieces, rfl, hdepth', hdrawn', hP⟩
      exact Ends.pure ⟨piece :: pieces, rfl, by simpa using ⟨hdepth, hdepth'⟩, hdrawn.append hdrawn' hready, hP⟩
    | cons other more =>
      simp only [honward]
      obtain ⟨hnext, hother, hreject⟩ := hmany _ loose next other more hQ honward
      exact Ends.reject hg hstart (by simpa using ⟨hnext, hother⟩) (hreject _ _)

/-- The root holds the span from the entry, which has to leave nothing to do. -/
theorem root_runs (hready : Ready g halts d) {Q : List Sketch → BlockExits → Prop}
    (hspan : Runs (span g (g.size + 1) g.entry [] 1) d 1 Q halts)
    (hdrained : ∀ parts loose, Q parts loose → parts ≠ [] ∧ loose.isEmpty = true) :
    Ends (root g) d (fun id d' => ∃ parts loose, Q parts loose ∧ loose.isEmpty = true ∧
      Drawn d d' [⟨.node id, 0, .node .root loose parts⟩]) halts := by
  refine Ends.bind (Ends.imp hspan ?_)
  rintro ⟨_, loose⟩ d₁ ⟨pieces, rfl, hdepth, hdrawn, hQ⟩
  obtain ⟨hparts, hempty⟩ := hdrained _ loose hQ
  simp only [hempty, if_true]
  have hne : pieces ≠ [] := by simpa using hparts
  have hdrawn' : Drawn d d₁ (pieces ++ []) := by simpa using hdrawn
  exact (addNode_ends .root 0 loose hready hdrawn' hne (shapeFault?_sequence rfl (by simpa using hne)) hdepth).imp
    fun id d₂ hd₂ => ⟨_, loose, hQ, hempty, hd₂⟩

end

end Structuring
end FlowTree
