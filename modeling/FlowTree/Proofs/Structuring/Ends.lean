import FlowTree.Proofs.FlowGraph.Linked
import FlowTree.Tree.Structuring

/-!
How a step of structuring ends. `Ends x d ok halts` says that the step `x`, run on the draft `d`, gives a
result and a draft of which `ok` holds, or stops in a way of which `halts` holds. There is one rule for each
way to put steps together and one for each lookup, so that a step is followed through without opening the
monad. The rules leave `halts` open: with rejections allowed they say what a result looks like, and with
nothing allowed they say that there is one.
-/

namespace FlowTree
namespace Structuring

/-- How a step ends: `ok` holds of its result and the draft after it, or `halts` of why it stopped and of the
draft at that time. -/
def Ends {α : Type} (x : Structuring α) (d : Draft) (ok : α → Draft → Prop) (halts : Halt → Draft → Prop) : Prop :=
  match x d with
  | .ok a d' => ok a d'
  | .error h d' => halts h d'

namespace Ends

section
variable {α β γ : Type} {d : Draft} {halts : Halt → Draft → Prop}

theorem pure {a : α} {ok : α → Draft → Prop} (h : ok a d) : Ends (Pure.pure a) d ok halts := h

theorem bind {x : Structuring α} {f : α → Structuring β} {ok : β → Draft → Prop}
    (h : Ends x d (fun a d' => Ends (f a) d' ok halts) halts) : Ends (x >>= f) d ok halts := by
  unfold Ends at h ⊢
  simp only [Bind.bind, EStateM.bind]
  cases hx : x d with
  | ok a d' => simpa [hx, Ends] using h
  | error e d' => simpa [hx] using h

theorem imp {x : Structuring α} {ok ok' : α → Draft → Prop} (h : Ends x d ok halts)
    (himp : ∀ a d', ok a d' → ok' a d') : Ends x d ok' halts := by
  unfold Ends at h ⊢
  cases hx : x d with
  | ok a d' => exact himp a d' (by simpa [hx] using h)
  | error e d' => simpa [hx] using h

theorem get {ok : Draft → Draft → Prop} (h : ok d d) : Ends MonadState.get d ok halts := h

theorem set {d' : Draft} {ok : PUnit → Draft → Prop} (h : ok ⟨⟩ d') : Ends (MonadStateOf.set d') d ok halts := h

theorem fail {f : Fault} {ok : α → Draft → Prop} (h : halts (.fault f) d) : Ends (Structuring.fail f) d ok halts := h

/-- A loop that carries a value, by an invariant of the items that are done. -/
theorem foldlM {f : β → α → Structuring β} {items : List α} {init : β} {I : List α → β → Draft → Prop}
    (start : I [] init d)
    (step : ∀ done a rest acc d', items = done ++ a :: rest → I done acc d' →
      Ends (f acc a) d' (fun acc' d'' => I (done ++ [a]) acc' d'') halts) :
    Ends (items.foldlM f init) d (fun acc d' => I items acc d') halts := by
  have key : ∀ (rest done : List α) (acc : β) (d' : Draft), items = done ++ rest → I done acc d' →
      Ends (rest.foldlM f acc) d' (fun acc d' => I items acc d') halts := by
    intro rest
    induction rest with
    | nil =>
      intro done acc d' hitems hinv
      rw [List.append_nil] at hitems
      exact Ends.pure (hitems ▸ hinv)
    | cons a rest ih =>
      intro done acc d' hitems hinv
      rw [List.foldlM_cons]
      refine bind ((step done a rest acc d' hitems hinv).imp fun acc' d'' h => ?_)
      exact ih (done ++ [a]) acc' d'' (by simp [hitems]) h
  exact key items [] init d rfl start

/-- A loop that collects results, by an invariant of the items that are done. -/
theorem mapM {f : α → Structuring β} {items : List α} {I : List α → List β → Draft → Prop} (start : I [] [] d)
    (step : ∀ done a rest results d', items = done ++ a :: rest → I done results d' →
      Ends (f a) d' (fun b d'' => I (done ++ [a]) (results ++ [b]) d'') halts) :
    Ends (items.mapM f) d (fun results d' => I items results d') halts := by
  have key : ∀ (rest done : List α) (results : List β) (d' : Draft), items = done ++ rest → I done results d' →
      Ends (rest.mapM f) d' (fun more d' => I items (results ++ more) d') halts := by
    intro rest
    induction rest with
    | nil =>
      intro done results d' hitems hinv
      rw [List.append_nil] at hitems
      rw [List.mapM_nil]
      refine Ends.pure ?_
      rw [List.append_nil]
      exact hitems ▸ hinv
    | cons a rest ih =>
      intro done results d' hitems hinv
      rw [List.mapM_cons]
      refine bind ((step done a rest results d' hitems hinv).imp fun b d'' h => bind ?_)
      refine (ih (done ++ [a]) (results ++ [b]) d'' (by simp [hitems]) h).imp fun more d''' h => Ends.pure ?_
      simpa using h
  simpa using key items [] [] d rfl start

/-- A loop for its effect, by an invariant of the items that are done. -/
theorem forM {f : α → Structuring PUnit} {items : List α} {I : List α → Draft → Prop} (start : I [] d)
    (step : ∀ done a rest d', items = done ++ a :: rest → I done d' →
      Ends (f a) d' (fun _ d'' => I (done ++ [a]) d'') halts) :
    Ends (items.forM f) d (fun _ d' => I items d') halts := by
  have key : ∀ (rest done : List α) (d' : Draft), items = done ++ rest → I done d' →
      Ends (rest.forM f) d' (fun _ d' => I items d') halts := by
    intro rest
    induction rest with
    | nil =>
      intro done d' hitems hinv
      rw [List.append_nil] at hitems
      exact Ends.pure (hitems ▸ hinv)
    | cons a rest ih =>
      intro done d' hitems hinv
      refine bind ((step done a rest d' hitems hinv).imp fun _ d'' h => ?_)
      exact ih (done ++ [a]) d'' (by simp [hitems]) h
  exact key items [] d rfl start

end

/-! ### Lookups -/

section
variable {α : Type} {d : Draft} {halts : Halt → Draft → Prop} {g : FlowGraph}

theorem item {table : Array α} {i : Nat} {a : α} {ok : α → Draft → Prop} (found : table[i]? = some a) (h : ok a d) :
    Ends (Structuring.item table i) d ok halts := by
  simp only [Structuring.item, found]
  exact Ends.pure h

theorem terminatorOf {b : BlockId} {block : Block} {i : Instruction} {ok : Instruction → Draft → Prop}
    (found : g.block? b = some block) (ends : block.terminator? = some i) (h : ok i d) :
    Ends (Structuring.terminatorOf g b) d ok halts := by
  refine bind (item found ?_)
  simp only [ends]
  exact Ends.pure h

theorem blockOf {label : Id} {b : BlockId} {ok : BlockId → Draft → Prop} (found : g.blockOf? label = some b)
    (h : ok b d) : Ends (Structuring.blockOf g label) d ok halts := by
  simp only [Structuring.blockOf, found]
  exact Ends.pure h

/-- Labels that all have blocks. -/
theorem mapM_blockOf {label : α → Id} {items : List α} {blocks : List BlockId} {ok : List BlockId → Draft → Prop}
    (found : items.mapM (fun a => g.blockOf? (label a)) = some blocks) (h : ok blocks d) :
    Ends (items.mapM fun a => Structuring.blockOf g (label a)) d ok halts := by
  have hpairs := forall₂_of_mapM_some found
  clear found
  induction hpairs generalizing ok with
  | nil => exact Ends.pure h
  | cons hb _ ih =>
    rw [List.mapM_cons]
    exact bind (blockOf hb (bind (ih (Ends.pure h))))

theorem targetOf {e : EdgeId} {target : BlockId} {ok : BlockId → Draft → Prop} (found : g.target? e = some target)
    (h : ok target d) : Ends (Structuring.targetOf g e) d ok halts := by
  obtain ⟨edge, hedge, rfl⟩ := Option.map_eq_some_iff.mp found
  exact bind (item hedge (Ends.pure h))

/-- A rejection at blocks of the graph is one. -/
theorem reject (hg : g.Linked) {kind : RejectionKind} {b : BlockId} {detail : String} {targets : List BlockId}
    {ok : α → Draft → Prop} (hb : b < g.size) (htargets : ∀ t ∈ targets, t < g.size)
    (h : halts (.rejected (.atBlock g kind b detail targets)) d) :
    Ends (Structuring.reject g kind b detail targets) d ok halts := by
  obtain ⟨block, found⟩ := FlowGraph.block?_eq_some_of_lt hb
  obtain ⟨i, ends⟩ := hg.terminator? found
  refine bind (terminatorOf found ends (bind ?_))
  refine (forM (I := fun _ d' => d' = d) rfl fun done t rest d' hitems hd => ?_).imp fun _ d' hd => ?_
  · obtain ⟨target, found⟩ := FlowGraph.block?_eq_some_of_lt (htargets t (by simp [hitems]))
    exact bind (item found (Ends.pure hd))
  · subst hd
    exact h

end

end Ends
end Structuring
end FlowTree
