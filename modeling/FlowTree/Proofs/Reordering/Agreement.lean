import FlowTree.Proofs.Reordering.Likeness
import FlowTree.Proofs.Structuring.Places

/-!
Steps of structuring in two graphs that have the same blocks under different numbers. Two steps agree when from like drafts
they come to like results and like drafts, or are rejected for the same reason. A fault agrees with anything: in a graph
that was built there is none, so nothing has to be known of places, depths and edges to compare two runs.
-/

namespace FlowTree

/-- The rejections say the same. -/
structure Rejection.Alike (r r' : Rejection) : Prop where
  kind_eq : r.kind = r'.kind
  blockName_eq : r.blockName = r'.blockName
  targets_eq : r.targets = r'.targets
  detail_eq : r.detail = r'.detail

/-- The kind and the children of each node. -/
def Draft.outline (d : Draft) : Array (Kind × List Child) := d.nodes.map fun n => (n.kind, n.children)

namespace Structuring

/-- The drafts have the same nodes and the same blocks to visit, up to the numbers of blocks. -/
structure DraftsAlike (σ : BlockId → BlockId) (d d' : Draft) : Prop where
  outline_eq : d'.outline = d.outline.map fun n => (n.1, n.2.map (Child.renumber σ))
  nodup : d.unvisited.Nodup
  nodup' : d'.unvisited.Nodup
  unvisited_iff : ∀ b, σ b ∈ d'.unvisited ↔ b ∈ d.unvisited

/-- The runs end alike, or one of them has a fault. -/
inductive EndsAlike (σ : BlockId → BlockId) {α α' : Type} (R : α → α' → Prop) :
    EStateM.Result Halt Draft α → EStateM.Result Halt Draft α' → Prop
  | ok {a : α} {a' : α'} {d d' : Draft} (value : R a a') (drafts : DraftsAlike σ d d') : EndsAlike σ R (.ok a d) (.ok a' d')
  | rejected {r r' : Rejection} {d d' : Draft} (h : r.Alike r') :
    EndsAlike σ R (.error (.rejected r) d) (.error (.rejected r') d')
  | faultLeft {f : Fault} {d : Draft} {y : EStateM.Result Halt Draft α'} : EndsAlike σ R (.error (.fault f) d) y
  | faultRight {x : EStateM.Result Halt Draft α} {f : Fault} {d' : Draft} : EndsAlike σ R x (.error (.fault f) d')

/-- From like drafts the steps end alike. -/
def Agree (σ : BlockId → BlockId) {α α' : Type} (R : α → α' → Prop) (x : Structuring α) (x' : Structuring α') : Prop :=
  ∀ d d', DraftsAlike σ d d' → EndsAlike σ R (x d) (x' d')

namespace Agree

section
variable {σ : BlockId → BlockId} {α α' β β' : Type} {R : α → α' → Prop} {S : β → β' → Prop}

theorem pure {a : α} {a' : α'} (h : R a a') : Agree σ R (Pure.pure a) (Pure.pure a') := fun _ _ hd => .ok h hd

theorem failLeft (f : Fault) (x' : Structuring α') : Agree σ R (Structuring.fail f) x' := fun _ _ _ => .faultLeft

theorem failRight (x : Structuring α) (f : Fault) : Agree σ R x (Structuring.fail f) := fun _ _ _ => .faultRight

theorem bind {x : Structuring α} {x' : Structuring α'} {f : α → Structuring β} {f' : α' → Structuring β'}
    (h : Agree σ R x x') (hf : ∀ a a', R a a' → Agree σ S (f a) (f' a')) : Agree σ S (x >>= f) (x' >>= f') := by
  intro d d' hd
  have hends := h d d' hd
  simp only [Bind.bind, EStateM.bind]
  generalize x d = end₁, x' d' = end₂ at hends ⊢
  cases hends with
  | ok value drafts => exact hf _ _ value _ _ drafts
  | rejected h => exact .rejected h
  | faultLeft => exact .faultLeft
  | faultRight => exact .faultRight

theorem foldlM {items : List α} {items' : List α'} (h : List.Forall₂ R items items') {f : β → α → Structuring β}
    {f' : β' → α' → Structuring β'} (step : ∀ acc acc' a a', S acc acc' → R a a' → Agree σ S (f acc a) (f' acc' a'))
    {init : β} {init' : β'} (start : S init init') : Agree σ S (items.foldlM f init) (items'.foldlM f' init') := by
  induction h generalizing init init' with
  | nil => exact pure start
  | cons ha _ ih =>
    rw [List.foldlM_cons, List.foldlM_cons]
    exact (step _ _ _ _ start ha).bind fun _ _ hacc => ih hacc

theorem mapM {items : List α} {items' : List α'} (h : List.Forall₂ R items items') {f : α → Structuring β}
    {f' : α' → Structuring β'} (step : ∀ a a', R a a' → Agree σ S (f a) (f' a')) :
    Agree σ (List.Forall₂ S) (items.mapM f) (items'.mapM f') := by
  induction h with
  | nil => exact pure .nil
  | cons ha _ ih =>
    rw [List.mapM_cons, List.mapM_cons]
    exact (step _ _ ha).bind fun _ _ hb => ih.bind fun _ _ hbs => pure (.cons hb hbs)

end

section
variable {σ : BlockId → BlockId} {α α' : Type} {R : α → α' → Prop}

theorem item {table : Array α} {table' : Array α'} {i i' : Nat}
    (h : ∀ a a', table[i]? = some a → table'[i']? = some a' → R a a') :
    Agree σ R (Structuring.item table i) (Structuring.item table' i') := by
  unfold Structuring.item
  split
  · split
    · exact pure (h _ _ ‹_› ‹_›)
    · exact failRight _ _
  · exact failLeft _ _

variable {g g' : FlowGraph} (hg : Renumbers g g' σ)
include hg

theorem block (b : BlockId) : Agree σ (· = ·) (Structuring.item g.blocks b) (Structuring.item g'.blocks (σ b)) := by
  refine item fun block block' found found' => Option.some.inj ?_
  have heq : g'.blocks[σ b]? = g.blocks[b]? := hg.block?_eq b
  rw [← found, ← found', heq]

theorem terminatorOf (b : BlockId) :
    Agree σ (· = ·) (Structuring.terminatorOf g b) (Structuring.terminatorOf g' (σ b)) := by
  refine (block hg b).bind ?_
  rintro block _ rfl
  split
  · exact pure rfl
  · exact failLeft _ _

theorem blockOf (label : Id) :
    Agree σ (fun b b' => b' = σ b) (Structuring.blockOf g label) (Structuring.blockOf g' label) := by
  unfold Structuring.blockOf
  rw [hg.blockOf?_eq]
  cases g.blockOf? label with
  | none => exact failLeft _ _
  | some b => exact pure rfl

theorem mapM_blockOf {γ : Type} (label : γ → Id) (items : List γ) : Agree σ (fun bs bs' => bs' = bs.map σ)
    (items.mapM fun a => Structuring.blockOf g (label a)) (items.mapM fun a => Structuring.blockOf g' (label a)) := by
  induction items with
  | nil => exact pure rfl
  | cons a items ih =>
    rw [List.mapM_cons, List.mapM_cons]
    refine (blockOf hg (label a)).bind ?_
    rintro b _ rfl
    refine ih.bind ?_
    rintro bs _ rfl
    exact pure rfl

theorem outgoing (b : BlockId) : Agree σ (List.Forall₂ fun e e' => g'.target? e' = (g.target? e).map σ)
    (Structuring.item g.outgoing b) (Structuring.item g'.outgoing (σ b)) := by
  refine item fun edges edges' found found' => ?_
  have hedges := hg.outgoing_targets b
  rwa [FlowGraph.outgoingEdges, found, FlowGraph.outgoingEdges, found'] at hedges

omit hg in
theorem targetOf {e e' : EdgeId} (he : g'.target? e' = (g.target? e).map σ) :
    Agree σ (fun b b' => b' = σ b) (Structuring.targetOf g e) (Structuring.targetOf g' e') := by
  refine (item (R := fun edge edge' => edge'.target = σ edge.target) fun edge edge' found found' => ?_).bind
    fun _ _ h => pure h
  simpa [FlowGraph.target?, found, found'] using he

/-- Rejections at the same block say the same. -/
theorem reject (kind : RejectionKind) (b : BlockId) (detail : String) (targets : List BlockId) :
    Agree σ R (Structuring.reject g kind b detail targets : Structuring α)
      (Structuring.reject g' kind (σ b) detail (targets.map σ)) := by
  refine (terminatorOf hg b).bind fun _ _ _ => ?_
  have htarget : ∀ t, Agree σ (fun _ _ => True) (do let _ ← Structuring.item g.blocks t)
      (do let _ ← Structuring.item g'.blocks (σ t)) := fun t => (block hg t).bind fun _ _ _ => pure trivial
  have htargets : Agree σ (fun _ _ => True) (targets.forM fun t => do let _ ← Structuring.item g.blocks t)
      ((targets.map σ).forM fun t => do let _ ← Structuring.item g'.blocks t) := by
    induction targets with
    | nil => exact pure trivial
    | cons t targets ih => exact (htarget t).bind fun _ _ _ => ih
  refine htargets.bind fun _ _ _ d d' _ => .rejected ⟨rfl, (hg.blockName_eq b).symm, ?_, rfl⟩
  simp [Rejection.atBlock, hg.blockName_eq]

end

end Agree

/-! ### Visiting blocks and adding nodes -/

section
variable {σ : BlockId → BlockId} {g g' : FlowGraph} (hg : Renumbers g g' σ)

include hg in
theorem visit_agree (b : BlockId) : Agree σ (fun _ _ => True) (visit g b) (visit g' (σ b)) := by
  refine (Agree.block hg b).bind fun _ _ _ d d' hd => ?_
  rw [run_get, run_get]
  by_cases hb : b ∈ d.unvisited
  · rw [if_pos hb, if_pos ((hd.unvisited_iff b).mpr hb)]
    refine .ok trivial ⟨hd.outline_eq, hd.nodup.erase b, hd.nodup'.erase (σ b), fun c => ?_⟩
    rw [hd.nodup.mem_erase_iff, hd.nodup'.mem_erase_iff, hg.injective.ne_iff, hd.unvisited_iff]
  · rw [if_neg hb, if_neg (mt (hd.unvisited_iff b).mp hb)]
    exact Agree.reject hg _ b _ [] d d' hd

/-- The step leaves the nodes and the blocks to visit as they are, or has a fault. -/
def KeepsOutline (x : Structuring Unit) : Prop :=
  ∀ d, Ends x d (fun _ d' => d'.outline = d.outline ∧ d'.unvisited = d.unvisited) fun h _ => ∃ f, h = .fault f

theorem tieChild_keeps (g : FlowGraph) (node : NodeId) (c : Child) (i : Nat) : KeepsOutline (tieChild g node (c, i)) := by
  intro d
  cases c with
  | node id =>
    refine Ends.bind (Ends.get (Ends.bind (Ends.item_of_some (fun n hn => ?_) fun f => ⟨f, rfl⟩)))
    split
    · exact ⟨_, rfl⟩
    · refine Ends.set ⟨Array.ext_getElem? fun j => ?_, rfl⟩
      -- A node keeps its kind and its children when it gets a parent.
      simp only [Draft.outline]
      rw [Array.getElem?_map, Array.getElem?_map, Array.getElem?_setIfInBounds]
      split
      · rename_i hj
        obtain ⟨hlt, rfl⟩ := Array.getElem?_eq_some_iff.mp hn
        subst hj
        simp [hlt]
      · rfl
  | block b =>
    refine Ends.bind (Ends.get (Ends.bind (Ends.item_of_some (fun block _ => ?_) fun f => ⟨f, rfl⟩)))
    split
    · exact ⟨_, rfl⟩
    · exact Ends.set ⟨rfl, rfl⟩

theorem addNode_adds (g : FlowGraph) (kind : Kind) (children : List Child) (depth : Nat) (exits : BlockExits) (d : Draft) :
    Ends (addNode g kind children depth exits) d (fun id d' => id = d.nodes.size ∧
      d'.outline = d.outline.push (kind, children) ∧ d'.unvisited = d.unvisited) fun h _ => ∃ f, h = .fault f := by
  refine Ends.bind (Ends.get ?_)
  split
  · exact ⟨_, rfl⟩
  · refine Ends.bind (Ends.item_of_some (fun child _ => Ends.bind ?_) fun f => ⟨f, rfl⟩)
    have hfirst : Ends (firstBlock child) d (fun _ d' => d' = d) fun h _ => ∃ f, h = .fault f := by
      cases child with
      | block b => exact Ends.pure rfl
      | node id =>
        exact Ends.bind (Ends.get (Ends.bind (Ends.item_of_some (fun n _ => Ends.pure rfl) fun f => ⟨f, rfl⟩)))
    refine hfirst.imp fun first d' hd => ?_
    subst hd
    refine Ends.bind (Ends.set (Ends.bind ?_))
    let pushed : Draft := { d' with nodes := d'.nodes.push { kind, children, depth, firstBlock := first, exits } }
    refine (Ends.forM (I := fun _ d'' => d''.outline = pushed.outline ∧ d''.unvisited = pushed.unvisited) ⟨rfl, rfl⟩
      fun _ item _ d'' _ hkept => (tieChild_keeps g _ item.1 item.2 d'').imp fun _ d''' h => ?_).imp fun _ d'' hkept => ?_
    · exact ⟨h.1.trans hkept.1, h.2.trans hkept.2⟩
    · refine Ends.pure ⟨rfl, hkept.1.trans ?_, hkept.2⟩
      simp [pushed, Draft.outline]

/-- The same children make the same node. -/
theorem addNode_agree (g g' : FlowGraph) (kind : Kind) (children : List Child) (depth : Nat) (exits exits' : BlockExits) :
    Agree σ (· = ·) (addNode g kind children depth exits)
      (addNode g' kind (children.map (Child.renumber σ)) depth exits') := by
  intro d d' hd
  have hadds := addNode_adds g kind children depth exits d
  have hadds' := addNode_adds g' kind (children.map (Child.renumber σ)) depth exits' d'
  unfold Ends at hadds hadds'
  generalize addNode g kind children depth exits d = end₁ at hadds ⊢
  generalize addNode g' kind (children.map (Child.renumber σ)) depth exits' d' = end₂ at hadds' ⊢
  cases end₁ with
  | error h _ =>
    obtain ⟨f, rfl⟩ := hadds
    exact .faultLeft
  | ok id d₁ =>
    cases end₂ with
    | error h _ =>
      obtain ⟨f, rfl⟩ := hadds'
      exact .faultRight
    | ok id' d₂ =>
      obtain ⟨rfl, houtline, hunvisited⟩ := hadds
      obtain ⟨rfl, houtline', hunvisited'⟩ := hadds'
      have hsize : d'.nodes.size = d.nodes.size := by simpa [Draft.outline] using congrArg Array.size hd.outline_eq
      refine .ok hsize.symm ⟨?_, hunvisited ▸ hd.nodup, hunvisited' ▸ hd.nodup', ?_⟩
      · rw [houtline, houtline', hd.outline_eq, Array.map_push]
      · rw [hunvisited, hunvisited']
        exact hd.unvisited_iff

end

end Structuring
end FlowTree
