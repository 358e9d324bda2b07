import FlowTree.Proofs.Nested.Setting

/-!
Structuring the constructs of a nested program. The span of a body gives the shapes of its items and leaves for
the one label that the body goes on at; `Nests` says so for a body and `Opens` for an item. There is one step for
each construct, from the bodies in it to the item that it is. The steps rest on how lowering and structuring
agree: the label that a nested body goes on at is always an exit of the construct around it, and no other block
of the body is, except where the body is a case, whose first block is an exit for the other cases.
-/

namespace FlowTree

open Sketch Structuring

namespace Nested

section
variable {g : FlowGraph}

/-- Structuring the span of a body gives its shapes and leaves for the label that it goes on at. -/
def Nests (g : FlowGraph) (body : Body) (next? : Option Id) : Prop :=
  ∀ ⦃budget exits depth d⦄, Waits g (body.lower next?) d → (∀ s ∈ (body.lower next?).tail, g.site s.label ∉ exits) →
    (∀ l ∈ next?, g.Known l ∧ g.site l ∈ exits) → d.unvisited.length < budget →
    Runs (span g budget (g.site body.first) exits depth) d depth (fun parts loose =>
      parts.map (Sketch.shape g) = body.shapes ∧ loose.Leaves (next?.toList.map g.site)) never

/-- Structuring an item gives its shape and leaves for the label that it goes on at. -/
def Opens (g : FlowGraph) (item : Item) (next : Id) : Prop :=
  ∀ ⦃budget exits depth d⦄, Waits g (item.lower next) d → (∀ s ∈ (item.lower next).tail, g.site s.label ∉ exits) →
    g.Known next → next ∉ (item.lower next).map Segment.label → d.unvisited.length < budget + 1 →
    RunsOne (construct g (span g budget) (g.site item.label) exits depth) d d depth (fun sketch loose =>
      sketch.shape g = item.shape ∧ loose.Leaves [g.site next]) never

section
variable {nested : SpanOf} {s : Segment} {rest : List Segment} {b : BlockId} {exits : List BlockId}
  {depth : Nat} {d : Draft}
  {Q : Sketch → BlockExits → Prop}

/-- A block of the program is visited, and its merge instruction says what it opens. -/
theorem construct_runs (hg : g.Linked) (hw : Waits g (s :: rest) d) (hb : g.site s.label = b)
    (h : ∀ d' block, g.block? b = some block → block.merge? = s.merge? →
      block.terminator? = some s.terminator → Waits g rest d' → Visited g never d [b] d' →
      (∀ depth, Drawn d d' [Piece.block b depth]) →
      RunsOne (match s.merge? with
        | none => do
          let loose ← blockExits g b
          Pure.pure (.block b, loose)
        | some merge =>
          if merge.op = .loopMerge then loop g nested b merge exits depth
          else selection g nested b merge exits depth) d d' depth Q never) :
    RunsOne (construct g nested b exits depth) d d depth Q never := by
  subst hb
  have hhosted := hw.hosted s List.mem_cons_self
  obtain ⟨block, found, merges, ends⟩ := hhosted.exists_block
  have hwaiting := hw.waiting s List.mem_cons_self
  refine Ends.bind ((visit_ends hg hhosted.known.lt fun habsent => absurd hwaiting habsent).imp ?_)
  rintro _ d' ⟨-, hdrawn⟩
  have hvisited : Visited g never d [g.site s.label] d' :=
    (hdrawn depth).visitedSince hw.ready (by simp [Piece.block])
  have hrest : Waits g rest d' :=
    Waits.behind (show Waits g ([s] ++ rest) d from hw) hvisited (by simp [hhosted.known.labelOf_site])
  refine Ends.bind (Ends.item found ?_)
  have hopens := h d' block found merges ends hrest hvisited hdrawn
  cases hmerge : s.merge? with
  | none =>
    simp only [hmerge] at merges hopens
    simp only [merges]
    exact hopens
  | some merge =>
    simp only [hmerge] at merges hopens
    simp only [merges]
    exact hopens

/-- A plain block leaves for the label that it goes on at. -/
theorem plain_runs (hg : g.Linked) {next? : Option Id} (hw : Waits g [s] d) (hb : g.site s.label = b)
    (hplain : s.merge? = none) (hterminator : s.terminator = leave next?) (hnext : ∀ l ∈ next?, g.Known l) :
    RunsOne (construct g nested b exits depth) d d depth (fun sketch loose =>
      sketch.shape g = .block s.label ∧ loose.Leaves (next?.toList.map g.site)) never := by
  subst hb
  refine construct_runs hg hw rfl fun d' block found _ ends _ _ hdrawn => ?_
  have hhosted := hw.hosted s (List.mem_singleton_self s)
  simp only [hplain]
  refine Ends.bind (blockExits_ends hg found (Ends.pure ⟨Piece.block _ depth, rfl, rfl, hdrawn depth, ?_, ?_⟩))
  · simp [Piece.block, hhosted.known.labelOf_site]
  · rw [hterminator] at ends
    cases next? with
    | none =>
      have hleaves : block.isLeaving = true := by
        simp only [Block.isLeaving, ends]
        rfl
      simp only [hleaves, if_true]
      exact Exits.leaves_nil _
    | some next =>
      have hstays : block.isLeaving = false := by
        simp only [Block.isLeaving, ends]
        rfl
      have hsuccessors := hhosted.successors hg (hterminator ▸ branchTargets?_leave (some next)) (by simpa using hnext)
      simp only [hstays, Bool.false_eq_true, if_false]
      refine (leaves_plainExits g (g.site s.label)).congr fun v => ?_
      rw [hsuccessors, List.mem_eraseDups]

end

theorem exists_budget {d : Draft} {b : BlockId} {budget : Nat} (hb : b ∈ d.unvisited)
    (hlength : d.unvisited.length < budget) :
    ∃ k, budget = k + 1 :=
  Nat.exists_eq_succ_of_ne_zero (Nat.ne_of_gt (Nat.lt_trans (List.length_pos_of_mem hb) hlength))

/-- The last block of a body. -/
theorem nests_last (hg : g.Linked) (block : Opening) (next? : Option Id) : Nests g (.last block) next? := by
  intro budget exits depth d hw _ hnext hlength
  rw [Body.lower] at hw
  have hwaiting := hw.waiting _ (List.mem_singleton_self _)
  obtain ⟨budget, rfl⟩ := exists_budget hwaiting hlength
  have hexits : ∀ t ∈ next?.toList.map g.site, t ∈ exits := by
    intro t ht
    obtain ⟨l, hl, rfl⟩ := List.mem_map.mp ht
    exact (hnext l (Option.mem_toList.mp hl)).2
  refine span_runs hg (hw.hosted _ (List.mem_singleton_self _)).known.lt hw.ready
    (plain_runs hg hw rfl rfl rfl fun l hl => (hnext l hl).1) ?_ ?_ ?_
  · rintro s loose ⟨hshape, hloose⟩ -
    refine ⟨congrArg (fun shape => [shape]) hshape, hloose.kept.congr fun t => ?_⟩
    rw [List.mem_filter, decide_eq_true_eq]
    exact ⟨And.left, fun ht => ⟨ht, hexits t ht⟩⟩
  · rintro s loose next d' ⟨-, hloose⟩ honward
    rw [hloose.onward_eq_nil hexits] at honward
    cases honward
  · rintro s loose first second more ⟨-, hloose⟩ honward
    rw [hloose.onward_eq_nil hexits] at honward
    cases honward

/-- An item with what comes behind it. -/
theorem nests_cons (hg : g.Linked) {item : Item} {rest : Body} {next? : Option Id} (hitem : Opens g item rest.first)
    (hrest : Nests g rest next?) : Nests g (.cons item rest) next? := by
  intro budget exits depth d hw hapart hnext hlength
  rw [Body.lower] at hw hapart
  obtain ⟨first, more, hlower, hlabel⟩ := item.exists_lower_eq_cons rest.first
  have hdistinct := hw.distinct
  rw [List.map_append, List.nodup_append'] at hdistinct
  have hitemWaits : Waits g (item.lower rest.first) d := hw.sublist (List.sublist_append_left _ _)
  have hfirst : first ∈ item.lower rest.first := hlower ▸ List.mem_cons_self
  have hwaiting := hlabel ▸ hitemWaits.waiting first hfirst
  obtain ⟨budget, rfl⟩ := exists_budget hwaiting hlength
  -- The rest of the body is where the item goes on, and it is no exit of what is around.
  have hgoesOn : rest.first ∈ (rest.lower next?).map Segment.label := rest.first_mem next?
  obtain ⟨s, hs, hsfirst⟩ := List.mem_map.mp hgoesOn
  have hknown : g.Known rest.first := hsfirst ▸ (hw.hosted s (List.mem_append_right _ hs)).known
  have hlater : ∀ s ∈ rest.lower next?, g.site s.label ∉ exits := fun s hs =>
    hapart s (by rw [hlower]; exact List.mem_append_right _ hs)
  have hnotExit : g.site rest.first ∉ exits := hsfirst ▸ hlater s hs
  have hitemApart : ∀ s ∈ (item.lower rest.first).tail, g.site s.label ∉ exits := fun s hs =>
    hapart s (by rw [hlower] at hs ⊢; exact List.mem_append_left _ hs)
  have hstart : g.site item.label < g.size := hlabel ▸ (hitemWaits.hosted first hfirst).known.lt
  refine span_runs hg hstart hw.ready
    (hitem hitemWaits hitemApart hknown (fun hmem => hdistinct.2.2 hmem hgoesOn) hlength) ?_ ?_ ?_
  · rintro s loose ⟨-, hloose⟩ honward
    rw [hloose.onward_eq hnotExit] at honward
    cases honward
  · rintro s loose next d' ⟨hshape, hloose⟩ honward hvisited
    rw [hloose.onward_eq hnotExit] at honward
    cases honward
    have hlabels : s.blocks.map g.labelOf = (item.lower rest.first).map Segment.label := by
      rw [← s.labels_shape, hshape, item.labels_shape]
    have hmem : item.label ∈ s.blocks.map g.labelOf := by
      rw [hlabels, ← hlabel]
      exact List.mem_map_of_mem hfirst
    obtain ⟨b, hb, -⟩ := List.mem_map.mp hmem
    refine (hrest (hw.behind hvisited hlabels) (fun s hs => hlater s (List.mem_of_mem_tail hs)) hnext
      (hvisited.length_lt_of_mem hb hlength)).imp fun parts ends ⟨hparts, hends⟩ => ⟨?_, ?_⟩
    · rw [List.map_cons, hshape, hparts, Body.shapes]
    · refine (hloose.kept.merge hends).congr fun t => ?_
      simp [hnotExit]
  · rintro s loose first second more ⟨-, hloose⟩ honward
    rw [hloose.onward_eq hnotExit] at honward
    cases honward

/-- What is in a part, if it is there. -/
def Arm.bodyShapes : Arm → List Shape
  | .missing => []
  | .present body => body.shapes

/-- The body of a part nests, if it is there. -/
def Arm.Nests (g : FlowGraph) (next : Id) : Arm → Prop
  | .missing => True
  | .present body => Nested.Nests g body (some next)

section
variable {arm : Arm} {next : Id} {parts : List Sketch}

theorem shapes_part {kind : Kind} {exits : BlockExits} (h : parts.map (Sketch.shape g) = arm.bodyShapes) :
    (part kind exits parts).map (Sketch.shape g) = arm.shapes kind := by
  cases arm with
  | missing =>
    rw [Arm.bodyShapes, List.map_eq_nil_iff] at h
    simp [h, part, Arm.shapes]
  | present body =>
    have hne : parts ≠ [] := fun hnil => body.shapes_ne_nil (by simpa [hnil, Arm.bodyShapes] using h.symm)
    simpa [part, hne, Arm.shapes, Arm.bodyShapes] using h

theorem labels_of_bodyShapes (h : parts.map (Sketch.shape g) = arm.bodyShapes) :
    (blocksOf parts).map g.labelOf = (arm.lower next).map Segment.label := by
  rw [← Sketch.labelsOf_shapes, h]
  cases arm with
  | missing => rfl
  | present body => exact body.labelsOf_shapes (some next)

/-- The span of a part. A missing one is left by the edges that lead to it. -/
theorem Arm.enter_runs {budget : Nat} {exits : List BlockId} {depth : Nat} {d : Draft} {sources : List EdgeId}
    (harm : arm.Nests g next) (hw : Waits g (arm.lower next) d) (hapart : ∀ s ∈ arm.lower next, g.site s.label ∉ exits)
    (hnext : g.Known next ∧ g.site next ∈ exits) (hsources : sources ≠ []) (hlength : d.unvisited.length < budget) :
    Runs (enter (span g budget) (g.site (arm.firstOr next)) sources exits depth) d depth (fun parts loose =>
      parts.map (Sketch.shape g) = arm.bodyShapes ∧ loose.Leaves [g.site next]) never := by
  cases arm with
  | missing =>
    exact Structuring.enter_runs (fun _ => ⟨rfl, (Exits.leaves_nil []).addAll _ hsources⟩) fun h => absurd hnext.2 h
  | present body =>
    rw [Arm.lower] at hw hapart
    obtain ⟨first, rest, hlower, hfirst⟩ := body.exists_lower_eq_cons (some next)
    have hnotExit : g.site body.first ∉ exits := hfirst ▸ hapart first (hlower ▸ List.mem_cons_self)
    refine Structuring.enter_runs (fun h => absurd h hnotExit) fun _ => ?_
    exact harm hw (fun s hs => hapart s (List.mem_of_mem_tail hs)) (by simpa using hnext) hlength

end

/-! ### Selections -/

section
variable {s : Segment} {rest : List Segment} {b : BlockId} {next : Id} {budget : Nat} {exits : List BlockId} {depth : Nat}
  {d : Draft} {Q : Sketch → BlockExits → Prop}

/-- The header of a selection is visited, and its terminator says what kind of selection it opens. -/
theorem selection_runs (hg : g.Linked) (hw : Waits g (s :: rest) d) (hb : g.site s.label = b)
    (hmerge : s.merge? = some (declareSelection next)) (hknown : g.Known next)
    (hop : s.terminator.op = .branchConditional ∨ s.terminator.op = .switch) (hlength : d.unvisited.length < budget + 1)
    (h : ∀ d' block, g.block? b = some block → block.terminator? = some s.terminator →
      Waits g rest d' → d'.unvisited.length < budget → Drawn d d' [Piece.block b (depth + 1)] →
      (s.terminator.op = .branchConditional → RunsOne (ifThen g (span g budget) b s.terminator
        (g.site next :: exits) depth) d d' depth Q never) ∧
      (s.terminator.op = .switch → RunsOne (switch g (span g budget) b s.terminator
        (g.site next :: exits) depth) d d' depth Q never)) :
    RunsOne (construct g (span g budget) b exits depth) d d depth Q never := by
  refine construct_runs hg hw hb fun d' block found _ ends hrest hvisited hdrawn => ?_
  have hlength' := hvisited.length_lt_of_mem (List.mem_singleton_self _) hlength
  obtain ⟨hif, hswitch⟩ := h d' block found ends hrest hlength' (hdrawn (depth + 1))
  have hnotLoop : (declareSelection next).op ≠ .loopMerge := by simp [declareSelection]
  have hlabel : (declareSelection next).selectionMerge? = some next := rfl
  simp only [hmerge, if_neg hnotLoop]
  unfold selection
  simp only [hlabel]
  refine Ends.bind (Ends.blockOf hknown (Ends.bind (Ends.terminatorOf found ends ?_)))
  rcases hop with hop | hop
  · simp only [hop]
    exact hif hop
  · simp only [hop]
    exact hswitch hop

end

theorem edgeBetween?_ne_nil (hg : g.Linked) {b v : BlockId} (hv : v ∈ g.successors b) :
    (g.edgeBetween? b v).toList ≠ [] := by
  obtain ⟨e, he⟩ := FlowGraph.mem_successors_iff.mp hv
  simp [hg.edgeBetween?_eq_some_iff.mpr he]

section
variable {whenTrue whenFalse : Arm} {next : Id}

/-- The two parts of a conditional start with one label only where both are missing. -/
theorem missing_of_firstOr_eq (distinct : ((whenTrue.lower next ++ whenFalse.lower next).map Segment.label).Nodup)
    (hnew : next ∉ (whenTrue.lower next ++ whenFalse.lower next).map Segment.label)
    (heq : whenFalse.firstOr next = whenTrue.firstOr next) : whenTrue = .missing ∧ whenFalse = .missing := by
  rw [List.map_append, List.nodup_append'] at distinct
  rw [List.map_append, List.mem_append, not_or] at hnew
  cases whenTrue with
  | missing =>
    cases whenFalse with
    | missing => exact ⟨rfl, rfl⟩
    | present body =>
      rw [Arm.lower] at hnew
      have hfirst : body.first = next := heq
      exact absurd (hfirst ▸ body.first_mem (some next)) hnew.2
  | present body =>
    rw [Arm.lower] at distinct hnew
    cases whenFalse with
    | missing =>
      have hfirst : next = body.first := heq
      exact absurd (hfirst.symm ▸ body.first_mem (some next)) hnew.1
    | present body' =>
      rw [Arm.lower] at distinct
      have hfirst : body'.first = body.first := heq
      exact absurd (hfirst ▸ body'.first_mem (some next)) (distinct.2.2 (body.first_mem (some next)))

theorem Waits.firstOr_known {arm : Arm} {d : Draft} (hw : Waits g (arm.lower next) d) {other : Id}
    (hother : g.Known other) :
    g.Known (arm.firstOr other) := by
  cases arm with
  | missing => exact hother
  | present body =>
    obtain ⟨s, hs, hfirst⟩ := List.mem_map.mp (body.first_mem (some next))
    exact (show s.label = (Arm.present body).firstOr other from hfirst) ▸ (hw.hosted s (by rw [Arm.lower]; exact hs)).known

section
variable {b : BlockId} {condition : Id} {budget : Nat} {exits : List BlockId} {depth : Nat} {d d' : Draft}

/-- A conditional without parts has one side, which is left at once. -/
theorem ifThen_missing_runs (hknown : g.Known next) (hsources : (g.edgeBetween? b (g.site next)).toList ≠ [])
    (hready : Ready g never d) (hdrawn : Drawn d d' [Piece.block b (depth + 1)]) :
    RunsOne (ifThen g (span g budget) b (branchConditional condition next next) (g.site next :: exits) depth) d d' depth
      (fun sketch loose => sketch.shape g = .node .ifThen [.block (g.labelOf b)] ∧ loose.Leaves [g.site next]) never := by
  have hlabels := conditionalTargets?_branchConditional condition next next
  have hresolved : (if next = next then [next] else [next, next]).mapM g.blockOf? = some [g.site next] := by
    rw [if_pos rfl]
    exact FlowGraph.mapM_blockOf? (by simpa using hknown)
  refine (ifThen_runs (S := fun _ span => span.1.map (Sketch.shape g) = [] ∧ span.2.Leaves [g.site next]) hlabels
    hresolved hready hdrawn ?_).imp ?_
  · intro done side rest spans d' hitems _ _
    obtain ⟨-, rfl⟩ := split_singleton hitems
    exact enter_runs (fun _ => ⟨rfl, (Exits.leaves_nil []).addAll _ hsources⟩) fun h => absurd List.mem_cons_self h
  · rintro _ _ ⟨spans, hspans, rfl, rfl⟩
    obtain ⟨span, spans, ⟨hparts, hloose⟩, hnil, rfl⟩ := List.forall₂_cons_left_iff.mp hspans
    cases hnil
    refine ⟨?_, leaves_mergeAll (by simp) (by simpa using hloose)⟩
    have hpart : (part .ifPart span.2 span.1).map (Sketch.shape g) = Arm.missing.shapes .ifPart := shapes_part hparts
    simp [hpart, Arm.shapes]

/-- A conditional whose two sides start with different labels has the shapes of both. -/
theorem ifThen_parts_runs (htrue : whenTrue.Nests g next) (hfalse : whenFalse.Nests g next) (hknown : g.Known next)
    (hapart : ∀ s ∈ whenTrue.lower next ++ whenFalse.lower next, g.site s.label ∉ g.site next :: exits)
    (hsources : ∀ v ∈ [g.site (whenTrue.firstOr next), g.site (whenFalse.firstOr next)], (g.edgeBetween? b v).toList ≠ [])
    (hdiffer : whenFalse.firstOr next ≠ whenTrue.firstOr next) (hready : Ready g never d)
    (hdrawn : Drawn d d' [Piece.block b (depth + 1)]) (hw : Waits g (whenTrue.lower next ++ whenFalse.lower next) d')
    (hlength : d'.unvisited.length < budget) :
    RunsOne (ifThen g (span g budget) b (branchConditional condition (whenTrue.firstOr next) (whenFalse.firstOr next))
        (g.site next :: exits) depth) d d' depth (fun sketch loose =>
      sketch.shape g = .node .ifThen (.block (g.labelOf b) :: (whenTrue.shapes .ifPart ++ whenFalse.shapes .ifPart)) ∧
        loose.Leaves [g.site next]) never := by
  have hlabels := conditionalTargets?_branchConditional condition (whenTrue.firstOr next) (whenFalse.firstOr next)
  have hnext : g.Known next ∧ g.site next ∈ g.site next :: exits := ⟨hknown, List.mem_cons_self⟩
  have htrueKnown := (hw.sublist (List.sublist_append_left _ _)).firstOr_known hknown
  have hfalseKnown := (hw.sublist (List.sublist_append_right _ _)).firstOr_known hknown
  have hresolved : (if whenFalse.firstOr next = whenTrue.firstOr next then [whenTrue.firstOr next]
      else [whenTrue.firstOr next, whenFalse.firstOr next]).mapM g.blockOf? =
      some [g.site (whenTrue.firstOr next), g.site (whenFalse.firstOr next)] := by
    rw [if_neg hdiffer]
    exact FlowGraph.mapM_blockOf? (by simpa using ⟨htrueKnown, hfalseKnown⟩)
  have hne : g.site (whenFalse.firstOr next) ≠ g.site (whenTrue.firstOr next) := fun h =>
    hdiffer (hfalseKnown.site_inj htrueKnown h)
  refine (ifThen_runs (S := fun side span => span.1.map (Sketch.shape g) =
    (if side = g.site (whenTrue.firstOr next) then whenTrue else whenFalse).bodyShapes ∧ span.2.Leaves [g.site next])
    hlabels hresolved hready hdrawn ?_).imp ?_
  · intro done side rest spans d'' hitems hS hvisited
    rcases split_pair hitems with ⟨rfl, rfl⟩ | ⟨rfl, rfl⟩
    · cases hS
      simp only [if_true]
      exact Arm.enter_runs htrue (hw.later (List.sublist_append_left _ _) hvisited (by simp))
        (fun s hs => hapart s (List.mem_append_left _ hs)) hnext (hsources _ (by simp)) (hvisited.length_lt hlength)
    · -- The first side has visited its own blocks only, so that those of the second still wait.
      obtain ⟨span, spans, ⟨hparts, -⟩, hnil, rfl⟩ := List.forall₂_cons_left_iff.mp hS
      cases hnil
      simp only [if_true] at hparts
      simp only [if_neg hne]
      have hwaits := hw.behind hvisited (by rw [List.flatMap_singleton, labels_of_bodyShapes hparts])
      exact Arm.enter_runs hfalse hwaits (fun s hs => hapart s (List.mem_append_right _ hs)) hnext (hsources _ (by simp))
        (hvisited.length_lt hlength)
  · rintro _ _ ⟨spans, hspans, rfl, rfl⟩
    obtain ⟨span, spans, ⟨hparts, hloose⟩, hspans', rfl⟩ := List.forall₂_cons_left_iff.mp hspans
    obtain ⟨span', spans, ⟨hparts', hloose'⟩, hnil, rfl⟩ := List.forall₂_cons_left_iff.mp hspans'
    cases hnil
    simp only [if_true] at hparts
    simp only [if_neg hne] at hparts'
    refine ⟨?_, leaves_mergeAll (by simp) (by simpa using ⟨hloose, hloose'⟩)⟩
    have hpart : (part .ifPart span.2 span.1).map (Sketch.shape g) = whenTrue.shapes .ifPart := shapes_part hparts
    have hpart' : (part .ifPart span'.2 span'.1).map (Sketch.shape g) = whenFalse.shapes .ifPart := shapes_part hparts'
    simp [hpart, hpart']

end

theorem opens_ifThen (hg : g.Linked) {header : Opening} {condition : Id} (htrue : whenTrue.Nests g next)
    (hfalse : whenFalse.Nests g next) : Opens g (.ifThen header condition whenTrue whenFalse) next := by
  intro budget exits depth d hw hapart hknown hnew hlength
  rw [Item.lower] at hw hapart hnew
  rw [List.map_cons, List.mem_cons, not_or] at hnew
  refine selection_runs hg hw rfl rfl hknown (Or.inl rfl) hlength fun d₁ block found ends hrest hlength₁ hdrawn =>
    ⟨fun _ => ?_, fun h => by cases h⟩
  have hheader := hw.hosted _ List.mem_cons_self
  have hlabel : g.labelOf (g.site (Item.ifThen header condition whenTrue whenFalse).label) = header.label :=
    hheader.known.labelOf_site
  have htrueKnown := (hrest.sublist (List.sublist_append_left _ _)).firstOr_known hknown
  have hfalseKnown := (hrest.sublist (List.sublist_append_right _ _)).firstOr_known hknown
  have htargets : (branchConditional condition (whenTrue.firstOr next) (whenFalse.firstOr next)).branchTargets? =
    some [whenTrue.firstOr next, whenFalse.firstOr next] := rfl
  have hsuccessors := hheader.successors hg htargets (by simpa using ⟨htrueKnown, hfalseKnown⟩)
  have hsources : ∀ v ∈ [g.site (whenTrue.firstOr next), g.site (whenFalse.firstOr next)],
      (g.edgeBetween? (g.site header.label) v).toList ≠ [] := fun v hv =>
    edgeBetween?_ne_nil hg ((congrArg (v ∈ ·) hsuccessors).mpr (List.mem_eraseDups.mpr hv))
  simp only [Item.shape, ← hlabel]
  by_cases hsame : whenFalse.firstOr next = whenTrue.firstOr next
  · obtain ⟨rfl, rfl⟩ := missing_of_firstOr_eq hrest.distinct hnew.2 hsame
    exact ifThen_missing_runs hknown (hsources _ List.mem_cons_self) hw.ready hdrawn
  · refine ifThen_parts_runs htrue hfalse hknown (fun s hs hmem => ?_) hsources hsame hw.ready hdrawn hrest hlength₁
    rcases List.mem_cons.mp hmem with heq | hmem
    · exact hrest.site_ne hs hknown (fun h => hnew.2 (List.mem_map.mpr ⟨s, hs, h⟩)) heq
    · exact hapart s hs hmem

end

/-! ### Loops -/

section
variable {loose ends : BlockExits} {header merge continueTarget : BlockId}

/-- A loop without a continue part is left for what comes behind it. -/
theorem leaves_remove_header (h : loose.Leaves [header, merge]) (hne : merge ≠ header) :
    (loose.remove header).Leaves [merge] :=
  (h.remove header).congr fun t => by simp [hne]

/-- A continue part goes back to the header, so that the loop is left for what comes behind it. -/
theorem leaves_remove_continue (h : loose.Leaves [continueTarget, merge]) (hends : ends.Leaves [header])
    (hne : merge ≠ continueTarget) (hne' : merge ≠ header) :
    (((loose.remove continueTarget).merge ends).remove header).Leaves [merge] :=
  (((h.remove continueTarget).merge hends).remove header).congr fun t => by simp [hne, hne']

end

/-- A header leads into the body of its loop and to what comes behind the loop. -/
theorem loopBody_runs (hg : g.Linked) {b first merge continueTarget : BlockId} {budget : Nat} {exits : List BlockId}
    {depth : Nat} {d : Draft} {shapes : List Shape} (hb : b < g.size) (hready : Ready g never d)
    (hsuccessors : g.successors b = [first, merge]) (hfirst : first ∉ exits) (hmerge : merge ∈ exits)
    (hspan : ∀ d', Visited g never d [] d' → Runs (span g budget first exits depth) d' depth (fun parts loose =>
      parts.map (Sketch.shape g) = shapes ∧ loose.Leaves [continueTarget]) never) :
    Runs (loopSpans g (span g budget) b exits depth) d depth (fun parts loose =>
      parts.map (Sketch.shape g) = shapes ∧ loose.Leaves [continueTarget, merge]) never := by
  have hne : first ≠ merge := fun h => hfirst (h ▸ hmerge)
  obtain ⟨into, behind, htransfers, rfl, rfl⟩ : ∃ into behind : BlockId × EdgeId, g.transfers b = [into, behind] ∧
      into.1 = first ∧ behind.1 = merge := by
    rw [FlowGraph.successors_eq_transfers] at hsuccessors
    obtain ⟨into, rest, htransfers, rfl, hrest⟩ := List.map_eq_cons_iff.mp hsuccessors
    obtain ⟨behind, rest, rfl, rfl, hnil⟩ := List.map_eq_cons_iff.mp hrest
    obtain rfl := List.map_eq_nil_iff.mp hnil
    exact ⟨into, behind, htransfers, rfl, rfl⟩
  refine (loopSpans_runs (S := fun t span => if t.1 = behind.1 then span.1 = [] ∧ span.2.Leaves [behind.1] else
    span.1.map (Sketch.shape g) = shapes ∧ span.2.Leaves [continueTarget]) hg hb hready ?_).imp ?_
  · intro done t rest spans d' hitems hS hvisited
    rw [htransfers] at hitems
    rcases split_pair hitems with ⟨rfl, rfl⟩ | ⟨rfl, rfl⟩
    · cases hS
      simp only [if_neg hne]
      exact enter_runs (fun h => absurd h hfirst) fun _ => hspan d' hvisited
    · simp only [if_true]
      exact enter_runs (fun _ => ⟨rfl, (Exits.leaves_nil []).addAll _ (by simp)⟩) fun h => absurd hmerge h
  · rintro parts loose ⟨spans, hspans, rfl, rfl⟩
    rw [htransfers] at hspans
    obtain ⟨span, spans, hspan, hspans', rfl⟩ := List.forall₂_cons_left_iff.mp hspans
    obtain ⟨span', spans, hspan', hnil, rfl⟩ := List.forall₂_cons_left_iff.mp hspans'
    cases hnil
    simp only [if_neg hne] at hspan
    simp only [if_true] at hspan'
    refine ⟨by simpa [hspan'.1] using hspan.1, ?_⟩
    exact (((Exits.leaves_nil []).merge hspan.2).merge hspan'.2).congr fun t => by simp

section
variable {header : Opening} {condition next : Id} {body : Body} {continuing : Arm} {exits : List BlockId} {d : Draft}

/-- Where the blocks of a loop are in the graph: apart from the exits of the spans that they are in. -/
structure LoopSites (g : FlowGraph) (header next : Id) (body : Body) (continuing : Arm) (exits : List BlockId) : Prop where
  header_ne : g.site header ≠ g.site next
  target_ne : g.site (continuing.firstOr header) ≠ g.site next
  body_apart : ∀ s ∈ body.lower (some (continuing.firstOr header)),
    g.site s.label ∉ g.site (continuing.firstOr header) :: g.site next :: exits
  continuing_apart : ∀ s ∈ continuing.lower header, g.site s.label ∉ g.site header :: g.site next :: exits

theorem Waits.loopSites (hw : Waits g ((Item.loop header condition body continuing).lower next) d)
    (hapart : ∀ s ∈ ((Item.loop header condition body continuing).lower next).tail, g.site s.label ∉ exits)
    (hknown : g.Known next) (hnew : next ∉ ((Item.loop header condition body continuing).lower next).map Segment.label) :
    LoopSites g header.label next body continuing exits := by
  simp only [Item.lower] at hw hapart hnew
  rw [List.map_cons, List.mem_cons, not_or] at hnew
  have hheader : g.Known header.label := (hw.hosted _ List.mem_cons_self).known
  obtain ⟨hheaderNew, hdistinct⟩ := List.nodup_cons.mp hw.distinct
  rw [List.map_append, List.nodup_append'] at hdistinct
  have hrest := hw.sublist (List.sublist_cons_self _ _)
  have htarget := continuing.firstOr_eq_or header.label header.label
  have htargetKnown := (hrest.sublist (List.sublist_append_right _ _)).firstOr_known hheader
  have hne : ∀ s ∈ body.lower (some (continuing.firstOr header.label)) ++ continuing.lower header.label,
      g.site s.label ≠ g.site next := fun s hs =>
    hrest.site_ne hs hknown fun h => hnew.2 (List.mem_map.mpr ⟨s, hs, h⟩)
  have hheaderNe : g.site header.label ≠ g.site next := fun h => hnew.1 (hknown.site_inj hheader h.symm)
  refine ⟨hheaderNe, ?_, fun s hs => ?_, fun s hs => ?_⟩
  · rcases htarget with rfl | ⟨s, hs, hlabel⟩
    · exact hheaderNe
    · exact hlabel ▸ hne s (List.mem_append_right _ hs)
  · simp only [List.mem_cons, not_or]
    refine ⟨hrest.site_ne (List.mem_append_left _ hs) htargetKnown ?_, hne s (List.mem_append_left _ hs),
      hapart s (List.mem_append_left _ hs)⟩
    rcases htarget with rfl | ⟨s', hs', hlabel⟩
    · exact fun h => hheaderNew (List.mem_map.mpr ⟨s, List.mem_append_left _ hs, h⟩)
    · exact fun h => hdistinct.2.2 (List.mem_map_of_mem hs) (List.mem_map.mpr ⟨s', hs', hlabel.trans h.symm⟩)
  · simp only [List.mem_cons, not_or]
    refine ⟨hrest.site_ne (List.mem_append_right _ hs) hheader ?_, hne s (List.mem_append_right _ hs),
      hapart s (List.mem_append_right _ hs)⟩
    exact fun h => hheaderNew (List.mem_map.mpr ⟨s, List.mem_append_right _ hs, h⟩)

/-- The header of a loop is visited, and its merge instruction declares the loop. -/
theorem loopHeader_runs (hg : g.Linked) {s : Segment} {rest : List Segment} {b : BlockId} {budget depth : Nat}
    {target : Id} {Q : Sketch → BlockExits → Prop} (hw : Waits g (s :: rest) d) (hb : g.site s.label = b)
    (hmerge : s.merge? = some (declareLoop next target)) (hlength : d.unvisited.length < budget + 1)
    (h : ∀ d', Waits g rest d' → d'.unvisited.length < budget → Drawn d d' [Piece.block b (depth + 1)] →
      RunsOne (loop g (span g budget) b (declareLoop next target) exits depth) d d' depth Q never) :
    RunsOne (construct g (span g budget) b exits depth) d d depth Q never := by
  refine construct_runs hg hw hb fun d' block _ _ _ hrest hvisited hdrawn => ?_
  have hloop : (declareLoop next target).op = .loopMerge := rfl
  simp only [hmerge, if_pos hloop]
  exact h d' hrest (hvisited.length_lt_of_mem (List.mem_singleton_self _) hlength) (hdrawn (depth + 1))

theorem opens_loop (hg : g.Linked) (hbody : Nests g body (some (continuing.firstOr header.label)))
    (hcontinuing : continuing.Nests g header.label) : Opens g (.loop header condition body continuing) next := by
  intro budget exits depth d hw hapart hknown hnew hlength
  have hsites := hw.loopSites hapart hknown hnew
  simp only [Item.lower] at hw
  have hheader := hw.hosted _ List.mem_cons_self
  have hheaderKnown : g.Known header.label := hheader.known
  refine loopHeader_runs hg hw rfl rfl hlength fun d₁ hrest hlength₁ hdrawn => ?_
  have hlabels : (declareLoop next (continuing.firstOr header.label)).loopMerge? =
    some (next, continuing.firstOr header.label) := rfl
  have htargetKnown := (hrest.sublist (List.sublist_append_right _ _)).firstOr_known hheaderKnown
  obtain ⟨first, hfirst, hfirstLabel⟩ := List.mem_map.mp (body.first_mem (some (continuing.firstOr header.label)))
  have hfirstApart := hfirstLabel ▸ hsites.body_apart first hfirst
  have hfirstKnown : g.Known body.first := hfirstLabel ▸ (hrest.hosted first (List.mem_append_left _ hfirst)).known
  have hsuccessors : g.successors (g.site header.label) = [g.site body.first, g.site next] := by
    have htargets : (branchConditional condition body.first next).branchTargets? = some [body.first, next] := rfl
    refine (hheader.successors hg htargets (by simpa using ⟨hfirstKnown, hknown⟩)).trans (eraseDups_eq_self ?_)
    simp only [List.mem_cons, not_or] at hfirstApart
    simpa using hfirstApart.2.1
  refine (loop_runs (P := fun _ _ parts loose => parts.map (Sketch.shape g) = continuing.bodyShapes ∧
    (loose.remove (g.site header.label)).Leaves [g.site next]) hlabels hknown htargetKnown hw.ready hdrawn
    (loopBody_runs hg hheaderKnown.lt hrest.ready hsuccessors hfirstApart (List.mem_cons_of_mem _ List.mem_cons_self)
      fun d' hvisited => hbody (hrest.later (List.sublist_append_left _ _) hvisited (by simp))
        (fun s hs => hsites.body_apart s (List.mem_of_mem_tail hs)) (by simpa using htargetKnown)
        (hvisited.length_lt hlength₁)) ?_ ?_).imp ?_
  · rintro parts loose ⟨-, hloose⟩ habsent
    -- Without a continue part the continue target is the header, which the body goes back to.
    rcases continuing.firstOr_eq_or header.label header.label with rfl | ⟨s, hs, hlabel⟩
    · exact ⟨rfl, leaves_remove_header hloose hsites.header_ne.symm⟩
    · rw [← hlabel] at habsent hloose
      exact absurd ((hloose.mem_iff _).mpr List.mem_cons_self) (habsent.resolve_right (hsites.continuing_apart s hs))
  · rintro parts loose d' ⟨hparts, hloose⟩ hvisited - hgo
    cases continuing with
    | missing => exact absurd List.mem_cons_self hgo
    | present span =>
      have hlabels := body.labelsOf_shapes (some span.first)
      rw [← hparts, Sketch.labelsOf_shapes] at hlabels
      refine (hcontinuing (hrest.behind hvisited hlabels)
        (fun s hs => hsites.continuing_apart s (List.mem_of_mem_tail hs)) (by simpa using hheaderKnown)
        (hvisited.length_lt hlength₁)).imp ?_
      rintro rest ends ⟨hrest, hends⟩
      exact ⟨hrest, leaves_remove_continue hloose hends hsites.target_ne.symm hsites.header_ne.symm⟩
  · rintro sketch loose ⟨parts, loose, continuing', loose', ⟨hparts, -⟩, ⟨hcontinuing', hloose'⟩, rfl, rfl⟩
    refine ⟨?_, hloose'⟩
    have hlabel : g.labelOf (g.site (Item.loop header condition body continuing).label) = header.label :=
      hheaderKnown.labelOf_site
    have hbodyPart : (part .loopBody {} parts).map (Sketch.shape g) = (Arm.present body).shapes .loopBody :=
      shapes_part hparts
    have hcontinuePart : (part .continuing {} continuing').map (Sketch.shape g) = continuing.shapes .continuing :=
      shapes_part hcontinuing'
    simp [hlabel, hbodyPart, hcontinuePart, Item.shape, Arm.shapes]

end

end

end Nested
end FlowTree
