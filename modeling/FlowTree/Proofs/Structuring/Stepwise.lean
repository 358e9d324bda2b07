import FlowTree.Proofs.Structuring.Ends

/-!
What holds of all of structuring because it holds of its steps. Structuring is put together from few steps: it stops,
marks a block as visited and adds a node. A property of these that is kept when steps are put one behind the other holds
of structuring a whole graph (`Stepwise.root`), whatever the graph is.
-/

namespace FlowTree
namespace Structuring

/-- The property is kept when steps are put one behind the other. -/
structure Chained (P : {α : Type} → Structuring α → Prop) : Prop where
  pure : ∀ {α : Type} (a : α), P (Pure.pure a)
  bind : ∀ {α β : Type} {x : Structuring α} {f : α → Structuring β}, P x → (∀ a, P (f a)) → P (x >>= f)

/-- The property holds of the steps that structuring is made of. -/
structure Stepwise (g : FlowGraph) (P : {α : Type} → Structuring α → Prop) : Prop extends Chained P where
  halt : ∀ {α : Type} (h : Halt), P (throw h : Structuring α)
  mark : ∀ (b : BlockId) {otherwise : Structuring Unit}, P otherwise → P (do
    let d ← get
    if b ∈ d.unvisited then set { d with unvisited := d.unvisited.erase b } else otherwise)
  addNode : ∀ kind children depth exits, P (addNode g kind children depth exits)

section
variable {P : {α : Type} → Structuring α → Prop} {α β : Type}

theorem Chained.foldlM (h : Chained P) {f : β → α → Structuring β} (hf : ∀ acc a, P (f acc a)) (items : List α) (init : β) :
    P (items.foldlM f init) := by
  induction items generalizing init with
  | nil => exact h.pure init
  | cons a items ih =>
    rw [List.foldlM_cons]
    exact h.bind (hf init a) ih

theorem Chained.mapM (h : Chained P) {f : α → Structuring β} (hf : ∀ a, P (f a)) (items : List α) :
    P (items.mapM f) := by
  induction items with
  | nil =>
    rw [List.mapM_nil]
    exact h.pure []
  | cons a items ih =>
    rw [List.mapM_cons]
    exact h.bind (hf a) fun b => h.bind ih fun bs => h.pure (b :: bs)

theorem Chained.forM (h : Chained P) {f : α → Structuring PUnit} (hf : ∀ a, P (f a)) (items : List α) :
    P (items.forM f) := by
  induction items with
  | nil => exact h.pure _
  | cons a items ih => exact h.bind (hf a) fun _ => ih

end

namespace Stepwise

section
variable {g : FlowGraph} {P : {α : Type} → Structuring α → Prop} (h : Stepwise g P) {nested : SpanOf}
  (hnested : ∀ start exits depth, P (nested start exits depth))
include h

theorem item {α : Type} (table : Array α) (i : Nat) : P (Structuring.item table i) := by
  unfold Structuring.item
  split
  · exact h.pure _
  · exact h.halt _

theorem terminatorOf (b : BlockId) : P (Structuring.terminatorOf g b) := by
  refine h.bind (h.item _ _) fun block => ?_
  split
  · exact h.pure _
  · exact h.halt _

theorem reject {α : Type} (kind : RejectionKind) (b : BlockId) (detail : String) (targets : List BlockId) :
    P (Structuring.reject g kind b detail targets : Structuring α) := by
  refine h.bind (h.terminatorOf b) fun _ => h.bind (h.forM (fun t => ?_) targets) fun _ => h.halt _
  exact h.bind (h.item _ t) fun _ => h.pure _

theorem blockOf (label : Id) : P (Structuring.blockOf g label) := by
  unfold Structuring.blockOf
  split
  · exact h.pure _
  · exact h.halt _

theorem targetOf (e : EdgeId) : P (Structuring.targetOf g e) :=
  h.bind (h.item _ _) fun _ => h.pure _

/-! ### Constructs -/

theorem addPart (kind : Kind) (children : List Child) (depth : Nat) (exits : BlockExits) :
    P (Structuring.addPart g kind children depth exits) := by
  unfold Structuring.addPart
  split
  · exact h.pure _
  · exact h.bind (h.addNode kind children depth exits) fun _ => h.pure _

theorem visit (b : BlockId) : P (Structuring.visit g b) :=
  h.bind (h.item _ _) fun _ => h.mark b (h.reject _ b _ [])

theorem blockExits (b : BlockId) : P (Structuring.blockExits g b) := by
  refine h.bind (h.terminatorOf b) fun terminator => ?_
  split
  · exact h.pure _
  · refine h.bind (h.item _ _) fun edges => h.foldlM (fun x e => ?_) edges _
    exact h.bind (h.targetOf e) fun _ => h.pure _

include hnested

theorem enter (start : BlockId) (sources : List EdgeId) (exits : List BlockId) (depth : Nat) :
    P (Structuring.enter nested start sources exits depth) := by
  unfold Structuring.enter
  split
  · exact h.pure _
  · exact hnested start exits depth

theorem loopSpans (header : BlockId) (exits : List BlockId) (depth : Nat) :
    P (Structuring.loopSpans g nested header exits depth) := by
  refine h.bind (h.item _ _) fun edges => h.foldlM (fun acc e => ?_) edges _
  exact h.bind (h.targetOf e) fun target => h.bind (h.enter hnested target _ _ _) fun _ => h.pure _

theorem loop (header : BlockId) (merge : Instruction) (exits : List BlockId) (depth : Nat) :
    P (Structuring.loop g nested header merge exits depth) := by
  unfold Structuring.loop
  split
  · exact h.halt _
  · refine h.bind (h.blockOf _) fun mergeBlock => h.bind (h.blockOf _) fun continueTarget => ?_
    refine h.bind (h.loopSpans hnested _ _ _) fun (body, loose) => h.bind (h.addPart _ _ _ _) fun bodyPart => ?_
    have hrest : ∀ continuePart loose', P (do
        let id ← Structuring.addNode g .loop (.block header :: (bodyPart ++ continuePart)) depth loose'
        Pure.pure ((.node id, loose') : Child × BlockExits)) := fun _ _ => h.bind (h.addNode _ _ _ _) fun _ => h.pure _
    dsimp only
    split
    · refine h.bind (h.enter hnested _ _ _ _) fun (span, ends) => h.bind (h.addPart _ _ _ _) fun _ => ?_
      exact h.bind (h.pure _) fun (_, _) => hrest _ _
    · exact h.bind (h.pure _) fun (_, _) => hrest _ _

theorem ifThen (header : BlockId) (terminator : Instruction) (exits : List BlockId) (depth : Nat) :
    P (Structuring.ifThen g nested header terminator exits depth) := by
  unfold Structuring.ifThen
  split
  · exact h.halt _
  · refine h.bind (h.mapM h.blockOf _) fun sides => h.bind (h.foldlM (fun acc side => ?_) sides _) fun arms =>
      h.bind (h.addNode _ _ _ _) fun _ => h.pure _
    exact h.bind (h.enter hnested _ _ _ _) fun span => h.bind (h.addPart _ _ _ _) fun _ => h.pure _

theorem switchArm (targets exits : List BlockId) (depth : Nat) (target : BlockId) :
    P (Structuring.switchArm g nested targets exits depth target) := by
  refine h.bind (hnested _ _ _) fun (children, ends) => ?_
  dsimp only
  split
  · exact h.pure _
  · exact h.pure _
  · exact h.reject _ _ _ _

omit hnested in
theorem orderCases (arms : List SwitchArm) : P (Structuring.orderCases g arms) := by
  unfold Structuring.orderCases
  split
  · exact h.reject _ _ _ _
  · exact h.reject _ _ _ _
  · exact h.pure _

theorem switch (header : BlockId) (terminator : Instruction) (exits : List BlockId) (depth : Nat) :
    P (Structuring.switch g nested header terminator exits depth) := by
  unfold Structuring.switch
  split
  · exact h.halt _
  · refine h.bind (h.blockOf _) fun default => h.bind (h.mapM (fun case => h.blockOf _) _) fun caseBlocks => ?_
    refine h.bind (h.mapM (h.switchArm hnested _ _ _) _) fun arms => h.bind (h.orderCases arms) fun ordered => ?_
    refine h.bind (h.mapM (fun arm => h.addNode _ _ _ _) _) fun nodes => ?_
    exact h.bind (h.addNode _ _ _ _) fun _ => h.pure _

theorem selection (header : BlockId) (merge : Instruction) (exits : List BlockId) (depth : Nat) :
    P (Structuring.selection g nested header merge exits depth) := by
  unfold Structuring.selection
  split
  · exact h.halt _
  · refine h.bind (h.blockOf _) fun mergeBlock => h.bind (h.terminatorOf _) fun terminator => ?_
    split
    · exact h.ifThen hnested _ _ _ _
    · exact h.switch hnested _ _ _ _
    · exact h.reject _ _ _ _

theorem construct (b : BlockId) (exits : List BlockId) (depth : Nat) :
    P (Structuring.construct g nested b exits depth) := by
  refine h.bind (h.visit b) fun _ => h.bind (h.item _ _) fun block => ?_
  split
  · exact h.bind (h.blockExits b) fun _ => h.pure _
  · split
    · exact h.loop hnested _ _ _ _
    · exact h.selection hnested _ _ _ _

omit hnested

theorem span (budget : Nat) (start : BlockId) (exits : List BlockId) (depth : Nat) :
    P (Structuring.span g budget start exits depth) := by
  induction budget generalizing start exits depth with
  | zero => exact h.halt _
  | succ budget ih =>
    refine h.bind (h.construct ih start exits depth) fun (child, loose) => ?_
    dsimp only
    split
    · exact h.pure _
    · exact h.bind (ih _ _ _) fun _ => h.pure _
    · exact h.reject _ _ _ _

theorem root : P (Structuring.root g) := by
  refine h.bind (h.span _ _ _ _) fun (children, loose) => ?_
  dsimp only
  split
  · exact h.addNode _ _ _ _
  · exact h.halt _

end

end Stepwise

end Structuring
end FlowTree
