import FlowTree.Proofs.Tree.Built

/-!
Shapes of built trees. Every node has the parts that its kind asks for: sequences hold blocks and constructs, and
the parts of a construct stand behind its header in a fixed order. So every node has a block, its first one, and
the body of a loop is found in a loop only.
-/

namespace FlowTree

open Sketch Structuring

namespace Sketch

/-- The sketch is a block or a construct, as the items of a sequence are. -/
def isItem : Sketch → Bool
  | .block _ => true
  | .node kind _ _ => !kind.isSequence

/-- A node of the given kind has such parts. -/
inductive Fits : Kind → List Sketch → Prop
  | sequence {kind : Kind} {parts : List Sketch} (sequence : kind.isSequence = true) (nonempty : parts ≠ [])
    (items : ∀ s ∈ parts, s.isItem = true) : Fits kind parts
  | ifThen {b : BlockId} {arms : List Sketch} (kinds : ∀ s ∈ arms, s.isOfKind .ifPart = true) (few : arms.length ≤ 2) :
    Fits .ifThen (.block b :: arms)
  | loop {b : BlockId} {body continuing : List Sketch} (bodies : ∀ s ∈ body, s.isOfKind .loopBody = true)
    (oneBody : body.length ≤ 1) (continues : ∀ s ∈ continuing, s.isOfKind .continuing = true)
    (oneContinue : continuing.length ≤ 1) : Fits .loop (.block b :: (body ++ continuing))
  | switch {b : BlockId} {cases : List Sketch} (kinds : ∀ s ∈ cases, s.isOfKind .case = true) :
    Fits .switch (.block b :: cases)

/-- Every node in the sketch has the parts that its kind asks for. -/
inductive Shaped : Sketch → Prop
  | block (b : BlockId) : Shaped (.block b)
  | node {kind : Kind} {exits : BlockExits} {parts : List Sketch} (here : Fits kind parts)
    (inside : ∀ s ∈ parts, Shaped s) : Shaped (.node kind exits parts)

section
variable {kind : Kind} {exits : BlockExits} {parts : List Sketch} {s : Sketch}

theorem Fits.ne_nil (h : Fits kind parts) : parts ≠ [] := by
  cases h with
  | sequence _ nonempty _ => exact nonempty
  | ifThen | loop | switch => exact List.cons_ne_nil _ _

theorem Shaped.of_node (h : Shaped (.node kind exits parts)) : Fits kind parts ∧ ∀ s ∈ parts, Shaped s := by
  cases h with
  | node here inside => exact ⟨here, inside⟩

theorem Shaped.head?_blocks (h : Shaped s) : s.blocks.head? = some s.first := by
  induction h with
  | block b => simp
  | node here _ ih =>
    obtain ⟨p, rest, rfl⟩ := List.exists_cons_of_ne_nil here.ne_nil
    rw [blocks_node, blocksOf_cons, List.head?_append, ih p List.mem_cons_self]
    simp

theorem Shaped.first_mem (h : Shaped s) : s.first ∈ s.blocks :=
  List.mem_of_mem_head? h.head?_blocks

/-- The body of a loop stands behind the header of a loop. -/
theorem Fits.eq_loop (h : Fits kind parts) (hs : s ∈ parts) (hbody : s.isOfKind .loopBody = true) :
    kind = .loop ∧ ∃ b rest, parts = .block b :: rest := by
  obtain ⟨exits, inner, rfl⟩ : ∃ exits inner, s = .node .loopBody exits inner := by
    cases s with
    | block b => cases hbody
    | node kind exits inner => exact ⟨exits, inner, by rw [of_decide_eq_true hbody]⟩
  cases h with
  | sequence _ _ items => exact absurd (items _ hs) (by simp [isItem, Kind.isSequence])
  | ifThen kinds _ => exact absurd (kinds _ (by simpa using hs)) (by simp [isOfKind])
  | loop => exact ⟨rfl, _, _, rfl⟩
  | switch kinds => exact absurd (kinds _ (by simpa using hs)) (by simp [isOfKind])

/-- In a loop the body comes before the continue part. -/
theorem Fits.body_before {i j : Nat} {p q : Sketch} (h : Fits .loop parts) (hp : parts[i]? = some p)
    (hq : parts[j]? = some q) (hbody : p.isOfKind .loopBody = true)
    (hcontinue : q.isOfKind .continuing = true) : i < j := by
  cases h with
  | sequence sequence => cases sequence
  | @loop b body continuing bodies oneBody continues oneContinue =>
    have hi : i - 1 < body.length := by
      by_contra hle
      cases i with
      | zero => cases Option.some.inj (List.getElem?_cons_zero.symm.trans hp); cases hbody
      | succ i =>
        rw [List.getElem?_cons_succ, List.getElem?_append_right (by omega)] at hp
        have := continues p (List.mem_of_getElem? hp)
        cases p <;> simp_all [isOfKind]
    have hj : body.length < j := by
      by_contra hle
      cases j with
      | zero => cases Option.some.inj (List.getElem?_cons_zero.symm.trans hq); cases hcontinue
      | succ j =>
        rw [List.getElem?_cons_succ, List.getElem?_append_left (by omega)] at hq
        have := bodies q (List.mem_of_getElem? hq)
        cases q <;> simp_all [isOfKind]
    omega

end

end Sketch

section
variable {R : SpanRelation}

/-- Every span of the relation is a sequence of shaped items. -/
def SpanShaped (R : SpanRelation) : Prop :=
  ∀ ⦃exits start parts loose⦄, R exits start parts loose → parts ≠ [] ∧ ∀ s ∈ parts, s.isItem = true ∧ Shaped s

theorem shaped_sequence {kind : Kind} {exits : BlockExits} {parts : List Sketch} (hkind : kind.isSequence = true)
    (hne : parts ≠ []) (h : ∀ s ∈ parts, s.isItem = true ∧ Shaped s) : Shaped (.node kind exits parts) :=
  .node (.sequence hkind hne fun s hs => (h s hs).1) fun s hs => (h s hs).2

theorem shaped_part {kind : Kind} {exits : BlockExits} {parts : List Sketch} (hkind : kind.isSequence = true)
    (h : ∀ s ∈ parts, s.isItem = true ∧ Shaped s) : ∀ s ∈ part kind exits parts, Shaped s := by
  intro s hs
  unfold part at hs
  split at hs
  · cases hs
  · rw [List.mem_singleton.mp hs]
    exact shaped_sequence hkind (by simpa using ‹¬parts.isEmpty = true›) h

theorem Enters.shaped (hR : SpanShaped R) {exits : List BlockId} {start : BlockId} {sources : List EdgeId}
    {parts : List Sketch} {loose : BlockExits} (h : Enters R exits start sources parts loose) :
    ∀ s ∈ parts, s.isItem = true ∧ Shaped s := by
  cases h with
  | stop => simp
  | go _ hrun => exact (hR hrun).2

theorem Continues.shaped (hR : SpanShaped R) {exits : List BlockId} {c : BlockId} {body loose : BlockExits}
    {parts : List Sketch} (h : Continues R exits c body parts loose) : ∀ s ∈ parts, s.isItem = true ∧ Shaped s := by
  cases h with
  | absent => simp
  | present _ _ hrun => exact (hR hrun).2

theorem Constructs.shaped {g : FlowGraph} (hR : SpanShaped R) {exits : List BlockId} {b : BlockId} {sketch : Sketch}
    {loose : BlockExits} (h : Constructs g R exits b sketch loose) : sketch.isItem = true ∧ Shaped sketch := by
  cases h with
  | leaving => exact ⟨rfl, .block b⟩
  | plain => exact ⟨rfl, .block b⟩
  | @loop _ _ _ _ m c spans continuing _ _ _ _ _ _ body rest =>
    have hbody : ∀ s ∈ spans.flatMap (·.1), s.isItem = true ∧ Shaped s := by
      intro s hs
      obtain ⟨span, hspan, hs⟩ := List.mem_flatMap.mp hs
      obtain ⟨_, -, henter⟩ := exists_of_mem_right body hspan
      exact henter.shaped hR s hs
    refine ⟨rfl, .node (.loop (fun _ => isOfKind_of_mem_part) (length_part_le ..) (fun _ => isOfKind_of_mem_part)
      (length_part_le ..)) ?_⟩
    intro s hs
    rcases List.mem_cons.mp hs with rfl | hs
    · exact .block b
    · rcases List.mem_append.mp hs with hs | hs
      · exact shaped_part rfl hbody s hs
      · exact shaped_part rfl (rest.shaped hR) s hs
  | @ifThen _ _ _ _ whenTrue whenFalse _ sides spans _ _ _ _ _ _ resolved arms =>
    have hfew : spans.length ≤ 2 := by
      rw [← arms.length_eq, ← (forall₂_of_mapM_some resolved).length_eq]
      split <;> simp
    refine ⟨rfl, .node (.ifThen (fun s hs => ?_) ((length_arms_le spans).trans hfew)) fun s hs => ?_⟩
    · obtain ⟨span, -, hs⟩ := List.mem_flatMap.mp hs
      exact isOfKind_of_mem_part hs
    · rcases List.mem_cons.mp hs with rfl | hs
      · exact .block b
      · obtain ⟨span, hspan, hs⟩ := List.mem_flatMap.mp hs
        obtain ⟨_, -, henter⟩ := exists_of_mem_right arms hspan
        exact shaped_part rfl (henter.shaped hR) s hs
  | switch _ _ _ _ _ _ _ _ _ parsed same _ =>
    refine ⟨rfl, .node (.switch fun s hs => ?_) fun s hs => ?_⟩
    · obtain ⟨a, -, rfl⟩ := List.mem_map.mp hs
      simp [ArmSketch.sketch, isOfKind]
    · rcases List.mem_cons.mp hs with rfl | hs
      · exact .block b
      · obtain ⟨a, ha, rfl⟩ := List.mem_map.mp hs
        obtain ⟨_, -, harm⟩ := exists_armOf parsed same ha
        obtain ⟨hne, hitems⟩ := hR harm.span
        exact shaped_sequence rfl hne hitems

end

theorem Spans.shaped (g : FlowGraph) (budget : Nat) : SpanShaped (Spans g budget) := by
  refine Spans.induction (fun ih hchild _ => ?_) (fun ih hchild _ hrest => ?_) budget
  · exact ⟨by simp, by simpa using hchild.shaped ih⟩
  · exact ⟨by simp, List.forall_mem_cons.mpr ⟨hchild.shaped ih, (ih hrest).2⟩⟩

/-! ### Trees -/

/-- The children of a node that is drawn pass the test that its kind asks for. -/
theorem Sketch.Fits.shapeFault?_eq_none {d : Draft} {kind : Kind} {parts : List Sketch} {children : List Child}
    {depth : Nat}
    (h : Fits kind parts) (hdraws : List.Forall₂ (fun c s => Draws d c depth s) children parts) :
    shapeFault? kind children (fun id => (d.nodes[id]?).map (·.kind)) = none := by
  have hkinds : ∀ {children parts k}, List.Forall₂ (fun c s => Draws d c depth s) children parts →
      (∀ s ∈ parts, s.isOfKind k = true) →
      ∀ c ∈ children, c.isOfKind (fun id => (d.nodes[id]?).map (·.kind)) k = true := by
    intro children parts k hdraws hkind c hc
    obtain ⟨s, hs, hcs⟩ := exists_of_mem_left hdraws hc
    rw [hcs.isOfKind]
    exact hkind s hs
  cases h with
  | sequence sequence nonempty _ =>
    refine shapeFault?_sequence sequence fun hnil => nonempty ?_
    subst hnil
    exact List.forall₂_nil_left_iff.mp hdraws
  | ifThen kinds few =>
    obtain ⟨_, arms, hheader, harms, rfl⟩ := List.forall₂_cons_right_iff.mp hdraws
    cases hheader
    exact shapeFault?_ifThen _ (hkinds harms kinds) (harms.length_eq ▸ few)
  | loop bodies oneBody continues oneContinue =>
    obtain ⟨_, rest, hheader, hrest, rfl⟩ := List.forall₂_cons_right_iff.mp hdraws
    cases hheader
    have hbody := List.forall₂_take_append _ _ _ hrest
    have hcontinue := List.forall₂_drop_append _ _ _ hrest
    rw [← List.take_append_drop _ rest]
    exact shapeFault?_loop _ (hbody.length_eq.trans_le oneBody) (hkinds hbody bodies)
      (hcontinue.length_eq.trans_le oneContinue) (hkinds hcontinue continues)
  | switch kinds =>
    obtain ⟨_, cases, hheader, hcases, rfl⟩ := List.forall₂_cons_right_iff.mp hdraws
    cases hheader
    exact shapeFault?_switch _ (hkinds hcases kinds)

theorem Tree.Built.shaped {g : FlowGraph} {before : Placement} {t : Tree} {sketch : Sketch} {unvisited : List BlockId}
    (h : Tree.Built g before t sketch unvisited) : Shaped sketch := by
  obtain ⟨parts, loose, hspan, -, rfl⟩ := h.rooted
  obtain ⟨hne, hitems⟩ := Spans.shaped g _ hspan
  exact shaped_sequence rfl hne hitems

end FlowTree
