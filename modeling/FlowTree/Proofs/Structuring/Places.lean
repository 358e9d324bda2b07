import FlowTree.Proofs.Structuring.Nodes
import FlowTree.Proofs.Structuring.Stepwise

/-!
The places that structuring gives to blocks. Every place that it has given belongs to a child of a node in the draft, and
none of these blocks had a place before, so taking all of them back restores the places from before (`Restores`). And
structuring does not look at the places of blocks before it gives one: a run that starts with the places that another one
ended with does the same as that one up to the first block that it would place, and stops there (`Repeats`).
-/

namespace FlowTree

namespace Placement

theorem ext_place? {p p' : Placement} (hsize : p.size = p'.size) (h : ∀ b, p.place? b = p'.place? b) : p = p' := by
  refine Array.ext hsize fun b hb hb' => ?_
  have := h b
  unfold place? at this
  rwa [Array.getElem?_eq_getElem hb, Array.getElem?_eq_getElem hb'] at this

theorem size_foldl_clear (bs : List BlockId) (p : Placement) : (bs.foldl clear p).size = p.size := by
  induction bs generalizing p with
  | nil => rfl
  | cons b bs ih => exact (ih (p.clear b)).trans Array.size_setIfInBounds

theorem place?_clear (p : Placement) (b b' : BlockId) :
    (p.clear b).place? b' = if b' = b then Option.none else p.place? b' := by
  unfold clear
  rw [place?_setIfInBounds]
  by_cases heq : b = b'
  · subst heq
    by_cases hlt : b < p.size
    · simp [hlt]
    · simp [hlt, place?]
  · simp [heq, Ne.symm heq]

theorem place?_foldl_clear (bs : List BlockId) (p : Placement) (b : BlockId) :
    (bs.foldl clear p).place? b = if b ∈ bs then Option.none else p.place? b := by
  induction bs generalizing p with
  | nil => simp
  | cons b' bs ih =>
    rw [List.foldl_cons, ih, place?_clear]
    by_cases hmem : b ∈ bs
    · simp [hmem]
    · simp [hmem]

/-- The later places include the earlier ones. -/
def Extends (later earlier : Placement) : Prop := ∀ b place, earlier.place? b = some place → later.place? b = some place

theorem Extends.refl (p : Placement) : p.Extends p := fun _ _ h => h

theorem Extends.trans {p p' p'' : Placement} (h : p''.Extends p') (h' : p'.Extends p) : p''.Extends p :=
  fun b place hplace => h b place (h' b place hplace)

end Placement

/-- The blocks that are children of nodes. -/
def Draft.written (d : Draft) : List BlockId :=
  (d.nodes.map Node.children).toList.flatMap (List.filterMap Child.block?)

theorem Draft.discard_eq (d : Draft) : d.discard = d.written.foldl Placement.clear d.placement := by
  simp [discard, written, List.foldl_flatMap, List.foldl_map]

theorem Draft.place?_discard (d : Draft) (b : BlockId) :
    d.discard.place? b = if b ∈ d.written then none else d.placement.place? b := by
  rw [discard_eq, Placement.place?_foldl_clear]

theorem Draft.size_discard (d : Draft) : d.discard.size = d.placement.size := by
  rw [discard_eq, Placement.size_foldl_clear]

namespace Structuring

theorem Ends.item_of_some {α : Type} {d : Draft} {halts : Halt → Draft → Prop} {table : Array α} {i : Nat}
    {ok : α → Draft → Prop} (hsome : ∀ a, table[i]? = some a → ok a d) (hfault : ∀ f, halts (.fault f) d) :
    Ends (Structuring.item table i) d ok halts := by
  unfold Structuring.item
  split
  · exact Ends.pure (hsome _ ‹_›)
  · exact Ends.fail (hfault _)

/-- Between the drafts the children were given places, and none of them had one. -/
structure Writes (children : List Child) (d d' : Draft) : Prop where
  children_eq : d'.nodes.map Node.children = d.nodes.map Node.children
  size_eq : d'.placement.size = d.placement.size
  fresh : ∀ b, .block b ∈ children → d.placement.place? b = none
  frame : ∀ b, .block b ∉ children → d'.placement.place? b = d.placement.place? b

section
variable {halts : Halt → Draft → Prop} (hfault : ∀ f d', halts (.fault f) d')
include hfault

theorem tieChild_writes {g : FlowGraph} {node : NodeId} {done : List Child} {d d' : Draft} (h : Writes done d d')
    (c : Child) (i : Nat) : Ends (tieChild g node (c, i)) d' (fun _ d'' => Writes (done ++ [c]) d d'') halts := by
  cases c with
  | node id =>
    refine Ends.bind (Ends.get (Ends.bind (Ends.item_of_some (fun n hn => ?_) fun f => hfault f _)))
    split
    · exact hfault _ _
    · refine Ends.set ⟨?_, h.size_eq, by simpa using h.fresh, by simpa using h.frame⟩
      -- A node keeps its children when it gets a parent.
      refine (Array.ext_getElem? fun j => ?_).trans h.children_eq
      rw [Array.getElem?_map, Array.getElem?_map, Array.getElem?_setIfInBounds]
      split
      · rename_i hj
        obtain ⟨hlt, rfl⟩ := Array.getElem?_eq_some_iff.mp hn
        subst hj
        simp [hlt]
      · rfl
  | block b =>
    refine Ends.bind (Ends.get (Ends.bind (Ends.item_of_some (fun block _ => ?_) fun f => hfault f _)))
    cases hplace : d'.placement.place? b with
    | some old =>
      simp only [Placement.put, hplace]
      exact hfault _ _
    | none =>
      simp only [Placement.put, hplace]
      refine Ends.set ⟨h.children_eq, by simpa using h.size_eq, fun b' hb' => ?_, fun b' hb' => ?_⟩
      · by_cases hdone : .block b' ∈ done
        · exact h.fresh b' hdone
        · obtain rfl : b' = b := by simpa [hdone] using hb'
          exact (h.frame b' hdone).symm.trans hplace
      · rw [List.mem_append, not_or] at hb'
        have hne : b ≠ b' := fun heq => hb'.2 (by simp [heq])
        rw [Placement.place?_setIfInBounds, if_neg fun hand => hne hand.1]
        exact h.frame b' hb'.1

theorem tieChildren_writes (g : FlowGraph) (node : NodeId) (children : List Child) (d : Draft) :
    Ends (children.zipIdx.forM (tieChild g node)) d (fun _ d' => Writes children d d') halts := by
  have hstart : Writes [] d d := ⟨rfl, rfl, by simp, fun _ _ => rfl⟩
  refine (Ends.forM (I := fun done d' => Writes (done.map (·.1)) d d') hstart fun done item rest d' _ h => ?_).imp
    fun _ d' h => ?_
  · rw [List.map_append, List.map_singleton]
    exact tieChild_writes hfault h item.1 item.2
  · simpa [List.zipIdx_map_fst] using h

end

section
variable {α β : Type} {x : Structuring α} {d : Draft}

theorem run_get (k : Draft → Structuring α) (d : Draft) : (get >>= k) d = k d d := rfl

theorem run_ok {a : α} {d' : Draft} (h : x d = .ok a d') (k : α → Structuring β) : (x >>= k) d = k a d' := by
  simp only [bind, EStateM.bind, h]

theorem run_error {e : Halt} {d' : Draft} (h : x d = .error e d') (k : α → Structuring β) :
    (x >>= k) d = .error e d' := by
  simp only [bind, EStateM.bind, h]

end

/-! ### Adding nodes -/

/-- The step only looks something up, and depends on the nodes alone. -/
def Looks {α : Type} (nodes : Array Node) (x : Structuring α) : Prop :=
  (∃ f, ∀ d, d.nodes = nodes → x d = .error (.fault f) d) ∨ ∃ a, ∀ d, d.nodes = nodes → x d = .ok a d

theorem Looks.item {α : Type} (nodes : Array Node) (table : Array α) (i : Nat) :
    Looks nodes (Structuring.item table i) := by
  unfold Structuring.item
  split
  · exact Or.inr ⟨_, fun _ _ => rfl⟩
  · exact Or.inl ⟨_, fun _ _ => rfl⟩

theorem Looks.firstBlock (nodes : Array Node) (c : Child) : Looks nodes (Structuring.firstBlock c) := by
  cases c with
  | block b => exact Or.inr ⟨b, fun _ _ => rfl⟩
  | node id =>
    simp only [Structuring.firstBlock]
    rcases Looks.item nodes nodes id with ⟨f, hf⟩ | ⟨n, hn⟩
    · refine Or.inl ⟨f, fun d hd => ?_⟩
      rw [run_get, hd, run_error (hf d hd)]
    · refine Or.inr ⟨n.firstBlock, fun d hd => ?_⟩
      rw [run_get, hd, run_ok (hn d hd)]
      rfl

/-- Adding a node depends on the nodes alone up to where its children are tied. -/
theorem addNode_eq (g : FlowGraph) (kind : Kind) (children : List Child) (depth : Nat) (exits : BlockExits) (d : Draft) :
    (∃ f, ∀ p, addNode g kind children depth exits { d with placement := p } =
      .error (.fault f) { d with placement := p }) ∨
    ∃ n, n.children = children ∧ ∀ p, addNode g kind children depth exits { d with placement := p } = (do
      children.zipIdx.forM (tieChild g d.nodes.size)
      pure d.nodes.size) { d with nodes := d.nodes.push n, placement := p } := by
  unfold addNode
  simp only [run_get]
  cases shapeFault? kind children fun id => (d.nodes[id]?).map Node.kind with
  | some why => exact Or.inl ⟨.misshapen kind why, fun p => rfl⟩
  | none =>
    dsimp only
    rcases Looks.item d.nodes children.toArray 0 with ⟨f, hf⟩ | ⟨child, hchild⟩
    · refine Or.inl ⟨f, fun p => ?_⟩
      rw [run_error (hf { d with placement := p } rfl)]
    · rcases Looks.firstBlock d.nodes child with ⟨f, hf⟩ | ⟨first, hfirst⟩
      · refine Or.inl ⟨f, fun p => ?_⟩
        rw [run_ok (hchild { d with placement := p } rfl), run_error (hf { d with placement := p } rfl)]
      · refine Or.inr ⟨{ kind, children, depth, firstBlock := first, exits }, rfl, fun p => ?_⟩
        rw [run_ok (hchild { d with placement := p } rfl), run_ok (hfirst { d with placement := p } rfl)]
        rfl

/-- Taking places back after a node is added gives what it would have given before. -/
theorem discard_addNode {halts : Halt → Draft → Prop} (hfault : ∀ f d', halts (.fault f) d') (g : FlowGraph) (kind : Kind)
    (children : List Child) (depth : Nat) (exits : BlockExits) (d : Draft) :
    Ends (addNode g kind children depth exits) d (fun _ d' => d'.discard = d.discard) halts := by
  unfold Ends
  rcases addNode_eq g kind children depth exits d with ⟨f, heq⟩ | ⟨n, hn, heq⟩
  · rw [heq d.placement]
    exact hfault f _
  · rw [heq d.placement]
    refine Ends.bind ((tieChildren_writes hfault g _ children _).imp fun _ d' h => Ends.pure ?_)
    have hwritten : ∀ b, b ∈ d'.written ↔ b ∈ d.written ∨ .block b ∈ children := fun b => by
      have hblock : ∀ c : Child, c.block? = some b ↔ c = .block b := fun c => by cases c <;> simp [Child.block?]
      simp [Draft.written, h.children_eq, hn, hblock]
    refine Placement.ext_place? ?_ fun b => ?_
    · rw [d'.size_discard, d.size_discard, h.size_eq]
    · simp only [Draft.place?_discard, hwritten]
      by_cases hb : b ∈ d.written
      · simp [hb]
      · by_cases hchild : .block b ∈ children
        · simpa [hb, hchild] using (h.fresh b hchild).symm
        · simpa [hb, hchild] using h.frame b hchild

/-- When taking places back gives the places from before, it does so after the step and when the step rejects. -/
def Restores (before : Placement) {α : Type} (x : Structuring α) : Prop :=
  ∀ d, d.discard = before → Ends x d (fun _ d' => d'.discard = before) fun h d' => (∃ f, h = .fault f) ∨ d'.discard = before

theorem restores_stepwise (g : FlowGraph) (before : Placement) : Stepwise g (Restores before) where
  pure _ _ hd := Ends.pure hd
  bind hx hf d hd := Ends.bind ((hx d hd).imp fun a d' hd' => hf a d' hd')
  halt _ _ hd := Or.inr hd
  mark b _ ho d hd := by
    refine Ends.bind (Ends.get ?_)
    split
    · exact Ends.set hd
    · exact ho d hd
  addNode kind children depth exits d hd :=
    (discard_addNode (fun f _ => Or.inl ⟨f, rfl⟩) g kind children depth exits d).imp fun _ _ hd' => hd'.trans hd

/-! ### Starting again -/

/-- The step stops at a block that has a place, and leaves the places as they are. -/
def Blocked (g : FlowGraph) {α : Type} (x : Structuring α) (d : Draft) : Prop :=
  ∃ b place d', d.placement.place? b = some place ∧ d'.placement = d.placement ∧
    x d = .error (.fault (.alreadyPlaced (g.blockName b) place)) d'

/-- A step that has succeeded only added places. Where it starts again with all of these it is blocked, or it does the same
and gives no place. -/
structure Repeated (g : FlowGraph) {α : Type} (x : Structuring α) (d : Draft) (a : α) (d' : Draft) : Prop where
  size_eq : d'.placement.size = d.placement.size
  grows : d'.placement.Extends d.placement
  again : ∀ p : Placement, p.Extends d'.placement → Blocked g x { d with placement := p } ∨
    d'.placement = d.placement ∧ x { d with placement := p } = .ok a { d' with placement := p }

/-- The step can be repeated wherever it succeeds. -/
def Repeats (g : FlowGraph) {α : Type} (x : Structuring α) : Prop :=
  ∀ d a d', d.placement.size = g.size → x d = .ok a d' → Repeated g x d a d'

theorem repeats_chained (g : FlowGraph) : Chained (Repeats g) where
  pure a d _ _ _ h := by
    cases h
    exact ⟨rfl, .refl _, fun _ _ => Or.inr ⟨rfl, rfl⟩⟩
  bind {_ _ x f} hx hf d b d'' hsize h := by
    simp only [Bind.bind, EStateM.bind] at h
    cases hd : x d with
    | error e d' =>
      rw [hd] at h
      cases h
    | ok a d' =>
      rw [hd] at h
      have hfirst := hx d a d' hsize hd
      have hsecond := hf a d' b d'' (hfirst.size_eq.trans hsize) h
      refine ⟨hsecond.size_eq.trans hfirst.size_eq, hsecond.grows.trans hfirst.grows, fun p hp => ?_⟩
      simp only [Blocked, Bind.bind, EStateM.bind]
      rcases hfirst.again p (hp.trans hsecond.grows) with ⟨b, place, e, hplace, he, hblocked⟩ | ⟨hsame, hagain⟩
      · rw [hblocked]
        exact Or.inl ⟨b, place, e, hplace, he, rfl⟩
      · rw [hagain]
        rcases hsecond.again p hp with hblocked | ⟨hsame', hagain'⟩
        · exact Or.inl hblocked
        · exact Or.inr ⟨hsame'.trans hsame, hagain'⟩

theorem repeats_of_blind {g : FlowGraph} {α : Type} {x : Structuring α} (h : ∀ d a d', x d = .ok a d' →
    d'.placement = d.placement ∧ ∀ p, x { d with placement := p } = .ok a { d' with placement := p }) : Repeats g x := by
  intro d a d' _ hd
  obtain ⟨hsame, hagain⟩ := h d a d' hd
  exact ⟨congrArg _ hsame, hsame ▸ .refl _, fun p _ => Or.inr ⟨hsame, hagain p⟩⟩

theorem setParent_repeats (g : FlowGraph) (child parent : NodeId) (index : Nat) :
    Repeats g (setParent child parent index) := by
  refine repeats_of_blind fun d a d' h => ?_
  unfold setParent item at h ⊢
  simp only [run_get] at h ⊢
  cases hn : d.nodes[child]? with
  | none =>
    simp only [hn] at h
    cases h
  | some n =>
    cases hparent : n.parent? with
    | some old =>
      simp only [hn, pure_bind, hparent] at h
      cases h
    | none =>
      simp only [hn, pure_bind, hparent] at h ⊢
      cases h
      exact ⟨rfl, fun _ => rfl⟩

/-- The place that a block was given is there, so the block cannot be given one again. -/
theorem placeBlock_repeats (g : FlowGraph) (b : BlockId) (place : Place) : Repeats g (placeBlock g b place) := by
  intro d a d' hsize h
  unfold placeBlock item at h ⊢
  rw [run_get] at h
  cases hblock : g.blocks[b]? with
  | none =>
    simp only [hblock] at h
    cases h
  | some block =>
    have hlt : b < d.placement.size := hsize ▸ (Array.getElem?_eq_some_iff.mp hblock).1
    cases hplace : d.placement.place? b with
    | some old =>
      simp only [hblock, pure_bind, Placement.put, hplace] at h
      cases h
    | none =>
      simp only [hblock, pure_bind, Placement.put, hplace] at h ⊢
      cases h
      have hput := d.placement.place?_setIfInBounds b (some place)
      refine ⟨Array.size_setIfInBounds, fun b' place' hb' => ?_, fun p hp => Or.inl ?_⟩
      · have hne : b ≠ b' := fun heq => by
          rw [← heq, hplace] at hb'
          cases hb'
        rw [hput, if_neg fun hand => hne hand.1]
        exact hb'
      · have hp : p.place? b = some place := hp b place (by rw [hput, if_pos ⟨rfl, hlt⟩])
        refine ⟨b, place, { d with placement := p }, hp, rfl, ?_⟩
        rw [run_get]
        simp only [hp]
        rfl

theorem tieChild_repeats (g : FlowGraph) (node : NodeId) (item : Child × Nat) : Repeats g (tieChild g node item) := by
  obtain ⟨c, i⟩ := item
  cases c with
  | node id => exact setParent_repeats g id node i
  | block b => exact placeBlock_repeats g b ⟨node, i⟩

theorem addNode_repeats (g : FlowGraph) (kind : Kind) (children : List Child) (depth : Nat) (exits : BlockExits) :
    Repeats g (addNode g kind children depth exits) := by
  intro d id d' hsize h
  rcases addNode_eq g kind children depth exits d with ⟨f, heq⟩ | ⟨n, -, heq⟩
  · rw [heq d.placement] at h
    cases h
  · have hties : Repeats g (do
        children.zipIdx.forM (tieChild g d.nodes.size)
        pure d.nodes.size) :=
      (repeats_chained g).bind ((repeats_chained g).forM (tieChild_repeats g d.nodes.size) _) fun _ =>
        (repeats_chained g).pure _
    rw [heq d.placement] at h
    obtain ⟨hsize', hgrows, hagain⟩ := hties { d with nodes := d.nodes.push n } id d' hsize h
    refine ⟨hsize', hgrows, fun p hp => ?_⟩
    unfold Blocked at hagain ⊢
    rw [heq p]
    exact hagain p hp

theorem repeats_stepwise (g : FlowGraph) : Stepwise g (Repeats g) where
  toChained := repeats_chained g
  halt _ _ _ _ _ h := by cases h
  mark b otherwise ho d a d' hsize h := by
    rw [run_get] at h
    by_cases hb : b ∈ d.unvisited
    · rw [if_pos hb] at h
      cases h
      exact ⟨rfl, .refl _, fun p _ => Or.inr ⟨rfl, by rw [run_get, if_pos hb]; rfl⟩⟩
    · rw [if_neg hb] at h
      obtain ⟨hsize', hgrows, hagain⟩ := ho d a d' hsize h
      refine ⟨hsize', hgrows, fun p hp => ?_⟩
      unfold Blocked at hagain ⊢
      rw [run_get, if_neg hb]
      exact hagain p hp
  addNode := addNode_repeats g

end Structuring
end FlowTree
