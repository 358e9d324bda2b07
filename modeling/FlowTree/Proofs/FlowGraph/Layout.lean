import FlowTree.Proofs.FlowGraph.Linked

/-!
Functions laid out block by block. Whether such a function has a graph depends on its blocks and not on their order: they
have to be free of further labels, their own labels have to differ, and they may name no other labels than these
(`exists_build_iff`). The graph then has the blocks in the order of their instructions.
-/

namespace FlowTree

open FlowGraph

/-- The instructions of a block: a label, and all that follows up to the first terminator. -/
structure BlockCode where
  label : Instruction
  body : List Instruction
  terminator : Instruction
  opens : label.op = .label := by rfl
  runs : ∀ i ∈ body, i.op.isTerminator = false := by decide
  closes : terminator.op.isTerminator = true := by rfl

namespace BlockCode

/-- The instructions in a row. -/
def instructions (c : BlockCode) : List Instruction := c.label :: (c.body ++ [c.terminator])

/-- The block that the instructions become in a function. -/
def block (f : Function) (c : BlockCode) : Block where
  label := c.label.result
  name := f.nameOf c.label.result
  position := c.label.position
  instructions := c.body ++ [c.terminator]

/-- No other label stands in the block. -/
def Clean (c : BlockCode) : Prop := ∀ i ∈ c.body, i.op ≠ .label

section
variable {f : Function}

theorem step_label {blocks : List Block} {i : Instruction} (hop : i.op = .label)
    (hnew : ∀ b ∈ blocks, b.label ≠ i.result) : Cut.step f ⟨blocks, none⟩ i =
      .ok ⟨blocks, some { label := i.result, name := f.nameOf i.result, position := i.position, instructions := [] }⟩ := by
  have hline : Opcode.label.isDebugLine = false := rfl
  have hany : ¬∃ b ∈ blocks, b.label = i.result := fun ⟨b, hb, heq⟩ => hnew b hb heq
  simp [Cut.step, hop, hline, hany]

theorem foldlM_inside {blocks : List Block} {is : List Instruction}
    (h : ∀ i ∈ is, i.op ≠ .label ∧ i.op.isTerminator = false) (b : Block) :
    is.foldlM (Cut.step f) ⟨blocks, some b⟩ = .ok ⟨blocks, some { b with instructions := b.instructions ++ is }⟩ := by
  induction is generalizing b with
  | nil => simp [pure, Except.pure]
  | cons i is ih =>
    obtain ⟨⟨hlabel, hterminator⟩, hrest⟩ := List.forall_mem_cons.mp h
    have hstep : Cut.step f ⟨blocks, some b⟩ i =
        .ok ⟨blocks, some { b with instructions := b.instructions ++ [i] }⟩ := by
      simp [Cut.step, hlabel, hterminator]
    rw [List.foldlM_cons, hstep]
    simpa [bind, Except.bind] using ih hrest { b with instructions := b.instructions ++ [i] }

theorem not_label_of_foldlM {is : List Instruction} {blocks : List Block} {b : Block} {cut : Cut}
    (hruns : ∀ i ∈ is, i.op.isTerminator = false) (h : is.foldlM (Cut.step f) ⟨blocks, some b⟩ = .ok cut) :
    ∀ i ∈ is, i.op ≠ .label := by
  induction is generalizing b with
  | nil => simp
  | cons i is ih =>
    obtain ⟨hi, hrest⟩ := List.forall_mem_cons.mp hruns
    rw [List.foldlM_cons] at h
    obtain ⟨next, hnext, h⟩ := Except.bind_eq_ok_iff.mp h
    by_cases hlabel : i.op = .label
    · simp [Cut.step, hlabel] at hnext
    · simp only [Cut.step, if_neg hlabel, hi, Bool.false_eq_true, if_false, Except.ok.injEq] at hnext
      subst hnext
      exact List.forall_mem_cons.mpr ⟨hlabel, ih hrest h⟩

/-- A block is cut from where it starts if its label is new and the only one in it. -/
theorem foldlM_instructions {blocks : List Block} {c : BlockCode} {cut : Cut} :
    c.instructions.foldlM (Cut.step f) ⟨blocks, none⟩ = .ok cut ↔
      (∀ b ∈ blocks, b.label ≠ c.label.result) ∧ c.Clean ∧ cut = ⟨blocks ++ [c.block f], none⟩ := by
  have hcut : (∀ b ∈ blocks, b.label ≠ c.label.result) → c.Clean →
      c.instructions.foldlM (Cut.step f) ⟨blocks, none⟩ = .ok ⟨blocks ++ [c.block f], none⟩ := by
    intro hnew hclean
    have hinside : ∀ i ∈ c.body, i.op ≠ .label ∧ i.op.isTerminator = false := fun i hi => ⟨hclean i hi, c.runs i hi⟩
    have hlast : c.terminator.op ≠ .label := fun heq => by
      have := c.closes
      rw [heq] at this
      cases this
    rw [instructions, List.foldlM_cons, step_label c.opens hnew]
    simp [bind, Except.bind, foldlM_inside hinside, Cut.step, hlast, c.closes, block, pure, Except.pure]
  constructor
  · intro h
    have hnew : ∀ b ∈ blocks, b.label ≠ c.label.result := by
      intro b hb heq
      have hline : Opcode.label.isDebugLine = false := rfl
      have hany : ∃ b ∈ blocks, b.label = c.label.result := ⟨b, hb, heq⟩
      rw [instructions, List.foldlM_cons] at h
      obtain ⟨next, hnext, -⟩ := Except.bind_eq_ok_iff.mp h
      simp [Cut.step, c.opens, hline, hany] at hnext
    have hclean : c.Clean := by
      rw [instructions, List.foldlM_cons, step_label c.opens hnew] at h
      obtain ⟨next, hnext, -⟩ := Except.bind_eq_ok_iff.mp (List.foldlM_append.symm.trans h)
      exact not_label_of_foldlM c.runs hnext
    rw [hcut hnew hclean, Except.ok.injEq] at h
    exact ⟨hnew, hclean, h.symm⟩
  · rintro ⟨hnew, hclean, rfl⟩
    exact hcut hnew hclean

theorem foldlM_codes {codes : List BlockCode} {blocks : List Block} {cut : Cut} :
    (codes.flatMap instructions).foldlM (Cut.step f) ⟨blocks, none⟩ = .ok cut ↔
      (∀ c ∈ codes, c.Clean) ∧ (codes.map (·.label.result)).Nodup ∧
        (∀ c ∈ codes, ∀ b ∈ blocks, b.label ≠ c.label.result) ∧ cut = ⟨blocks ++ codes.map (block f), none⟩ := by
  induction codes generalizing blocks with
  | nil => simp [pure, Except.pure, eq_comm]
  | cons c codes ih =>
    rw [List.flatMap_cons, List.foldlM_append, Except.bind_eq_ok_iff]
    simp only [foldlM_instructions, List.map_cons, List.nodup_cons, List.forall_mem_cons]
    constructor
    · rintro ⟨_, ⟨hnew, hclean, rfl⟩, hrest⟩
      obtain ⟨hcleans, hnodup, hnews, rfl⟩ := ih.mp hrest
      refine ⟨⟨hclean, hcleans⟩, ⟨fun hmem => ?_, hnodup⟩, ⟨hnew, fun c' hc' b hb => ?_⟩, by simp⟩
      · obtain ⟨c', hc', heq⟩ := List.mem_map.mp hmem
        exact hnews c' hc' (c.block f) (by simp) heq.symm
      · exact hnews c' hc' b (List.mem_append_left _ hb)
    · rintro ⟨⟨hclean, hcleans⟩, ⟨hnotMem, hnodup⟩, ⟨hnew, hnews⟩, rfl⟩
      refine ⟨_, ⟨hnew, hclean, rfl⟩, ih.mpr ⟨hcleans, hnodup, fun c' hc' b hb => ?_, by simp⟩⟩
      rcases List.mem_append.mp hb with hb | hb
      · exact hnews c' hc' b hb
      · rw [List.mem_singleton.mp hb]
        exact fun heq => hnotMem (List.mem_map.mpr ⟨c', hc', heq.symm⟩)

theorem cutBlocks_eq_ok {codes : List BlockCode} {blocks : List Block}
    (laidOut : f.instructions = codes.flatMap instructions) : cutBlocks f = .ok blocks ↔
      codes ≠ [] ∧ (∀ c ∈ codes, c.Clean) ∧ (codes.map (·.label.result)).Nodup ∧ blocks = codes.map (block f) := by
  unfold cutBlocks
  rw [laidOut, Except.bind_eq_ok_iff, show ({} : Cut) = ⟨[], none⟩ from rfl]
  simp only [foldlM_codes]
  constructor
  · rintro ⟨_, ⟨hclean, hnodup, -, rfl⟩, hcut⟩
    by_cases hne : codes = []
    · simp [hne] at hcut
    · simp only [List.nil_append, List.isEmpty_map, List.isEmpty_eq_false_iff.mpr hne] at hcut
      cases hcut
      exact ⟨hne, hclean, hnodup, rfl⟩
  · rintro ⟨hne, hclean, hnodup, rfl⟩
    exact ⟨_, ⟨hclean, hnodup, by simp, rfl⟩, by simp [hne]⟩

end

/-! ### Linking -/

end BlockCode

namespace FlowGraph

/-- The labels that the block names at its end are among the known ones. -/
structure NamesKnown (known : List Id) (b : Block) : Prop where
  terminator : ∃ i labels, b.terminator? = some i ∧ i.branchTargets? = some labels ∧ ∀ l ∈ labels, l ∈ known
  merge : ∀ m, b.merge? = some m → ∃ labels, mergeLabels? m = some labels ∧ ∀ l ∈ labels, l ∈ known

theorem NamesKnown.mono {known known' : List Id} {b : Block} (h : NamesKnown known b) (hsub : known ⊆ known') :
    NamesKnown known' b where
  terminator := by
    obtain ⟨i, labels, hi, hlabels, hknown⟩ := h.terminator
    exact ⟨i, labels, hi, hlabels, fun l hl => hsub (hknown l hl)⟩
  merge m hm := by
    obtain ⟨labels, hlabels, hknown⟩ := h.merge m hm
    exact ⟨labels, hlabels, fun l hl => hsub (hknown l hl)⟩

theorem exists_findIdx?_iff {blocks : List Block} {label : Id} :
    (∃ i, blocks.findIdx? (·.label = label) = some i) ↔ label ∈ blocks.map (·.label) := by
  rw [← Option.isSome_iff_exists, List.findIdx?_isSome, List.any_eq_true]
  simp

/-- Blocks are linked if each of them names labels of blocks only. -/
theorem exists_linkBlocks_iff {f : Function} {blocks : List Block} :
    (∃ links, linkBlocks f blocks = .ok links) ↔ ∀ b ∈ blocks, NamesKnown (blocks.map (·.label)) b := by
  constructor
  · rintro ⟨links, hlinks⟩ b hb
    obtain ⟨targets, -, hlinked⟩ := exists_of_mem_left (linkBlocks_ok hlinks) hb
    constructor
    · obtain ⟨i, labels, resolved, hi, hlabels, hresolved, -⟩ := hlinked.terminator
      refine ⟨i, labels, hi, hlabels, fun l hl => exists_findIdx?_iff.mp ?_⟩
      obtain ⟨target, -, hfound⟩ := exists_of_mem_left (forall₂_of_mapM_some hresolved) hl
      exact ⟨target, hfound⟩
    · intro m hm
      obtain ⟨labels, hlabels, hfound⟩ := hlinked.merge m hm
      exact ⟨labels, hlabels, fun l hl => exists_findIdx?_iff.mp (hfound l hl)⟩
  · intro h
    refine mapM_ok_of_forall fun b hb => ?_
    have hresolve : ∀ l ∈ blocks.map (·.label), ∀ position, ∃ b, resolve f blocks l position = .ok b := by
      intro l hl position
      obtain ⟨i, hi⟩ := exists_findIdx?_iff.mpr hl
      exact ⟨i, resolve_eq_ok.mpr hi⟩
    have hmerge : checkMerge f blocks b = .ok () := by
      unfold checkMerge
      cases hm : b.merge? with
      | none => rfl
      | some m =>
        obtain ⟨labels, hlabels, hknown⟩ := (h b hb).merge m hm
        simp only [hlabels]
        refine forM_ok_of_forall fun l hl => ?_
        obtain ⟨b, hb⟩ := hresolve l (hknown l hl) m.position
        simp [hb, bind, Except.bind]
    obtain ⟨i, labels, hi, hlabels, hknown⟩ := (h b hb).terminator
    obtain ⟨targets, htargets⟩ := mapM_ok_of_forall fun l hl => hresolve l (hknown l hl) i.position
    have hnamed : targetsOf f blocks i = .ok targets.eraseDups := by
      simp [targetsOf, hlabels, htargets, bind, Except.bind]
    exact ⟨targets.eraseDups, by simp [linkBlock, hmerge, hi, hnamed, Except.mapError, bind, Except.bind]⟩

theorem blockOf?_eq_some_iff {g : FlowGraph} (hnodup : (g.blocks.toList.map (·.label)).Nodup) {label : Id} {b : BlockId} :
    g.blockOf? label = some b ↔ ∃ block, g.block? b = some block ∧ block.label = label := by
  rw [blockOf?, Array.findIdx?_eq_some_iff_getElem]
  constructor
  · rintro ⟨hlt, hlabel, -⟩
    exact ⟨g.blocks[b], Array.getElem?_eq_getElem hlt, of_decide_eq_true hlabel⟩
  · rintro ⟨block, found, rfl⟩
    obtain ⟨hlt, rfl⟩ := Array.getElem?_eq_some_iff.mp found
    refine ⟨hlt, by simp, fun j hj => ?_⟩
    have hne : g.blocks[j].label ≠ g.blocks[b].label := fun heq => by
      have hjlt : j < g.blocks.size := Nat.lt_trans hj hlt
      have := (List.getElem?_inj (i := j) (j := b) (by simpa using hjlt) hnodup).mp (by simp [hlt, hjlt, heq])
      omega
    simpa using hne

end FlowGraph

namespace BlockCode

/-- The blocks make up a function together. -/
structure Fit (f : Function) (codes : List BlockCode) : Prop where
  nonempty : codes ≠ []
  clean : ∀ c ∈ codes, c.Clean
  distinct : (codes.map (·.label.result)).Nodup
  known : ∀ c ∈ codes, NamesKnown (codes.map (·.label.result)) (c.block f)

/-- Whether blocks fit depends neither on their order nor on the rest of the function. -/
theorem Fit.perm {f f' : Function} {codes codes' : List BlockCode} (h : Fit f codes) (hperm : codes.Perm codes') :
    Fit f' codes' where
  nonempty hnil := h.nonempty (List.perm_nil.mp (hnil ▸ hperm))
  clean c hc := h.clean c (hperm.mem_iff.mpr hc)
  distinct := (hperm.map _).nodup_iff.mp h.distinct
  known c hc := by
    have hknown := (h.known c (hperm.mem_iff.mpr hc)).mono (hperm.map _).subset
    -- The name of the block differs between the functions, its end does not.
    exact ⟨hknown.terminator, hknown.merge⟩

section
variable {f : Function} {codes : List BlockCode} (laidOut : f.instructions = codes.flatMap instructions)
include laidOut

/-- A function has a graph if its blocks fit together. -/
theorem exists_build_iff : (∃ g, build f = .ok g) ↔ Fit f codes := by
  have hlabels : (codes.map (block f)).map (·.label) = codes.map (·.label.result) := by simp [block, Function.comp_def]
  constructor
  · rintro ⟨g, hg⟩
    obtain ⟨blocks, links, hcut, hlinks, -⟩ := build_eq_ok hg
    obtain ⟨hne, hclean, hnodup, rfl⟩ := (cutBlocks_eq_ok laidOut).mp hcut
    refine ⟨hne, hclean, hnodup, fun c hc => ?_⟩
    exact hlabels ▸ exists_linkBlocks_iff.mp ⟨links, hlinks⟩ (c.block f) (List.mem_map_of_mem hc)
  · rintro ⟨hne, hclean, hnodup, hknown⟩
    have hcut := (cutBlocks_eq_ok laidOut).mpr ⟨hne, hclean, hnodup, rfl⟩
    obtain ⟨links, hlinks⟩ : ∃ links, linkBlocks f (codes.map (block f)) = .ok links := by
      refine exists_linkBlocks_iff.mpr fun b hb => ?_
      obtain ⟨c, hc, rfl⟩ := List.mem_map.mp hb
      exact hlabels ▸ hknown c hc
    exact ⟨_, build_of_links hcut hlinks⟩

theorem blocks_eq_of_build {g : FlowGraph} (h : build f = .ok g) : g.blocks = (codes.map (block f)).toArray := by
  obtain ⟨blocks, links, hcut, -, rfl⟩ := build_eq_ok h
  obtain ⟨-, -, -, rfl⟩ := (cutBlocks_eq_ok laidOut).mp hcut
  rfl

end

end BlockCode
end FlowTree
