import FlowTree.Proofs.FlowGraph.Layout

/-!
The grammar of functions. A function has a graph if its instructions are blocks with line markers between them, the
labels of the blocks are distinct, and the labels that the blocks name at their ends decode and are defined. Cutting
goes through the instructions once; what it has read so far is always some whole blocks with their markers, and then
markers or the beginning of a block (`Reads`).
-/

namespace FlowTree

open FlowGraph

instance (c : BlockCode) : Decidable c.Clean := inferInstanceAs (Decidable (∀ i ∈ c.body, i.op ≠ .label))

/-- A block whose only label is its own, and the line markers before it. -/
structure Group where
  markers : List Instruction := []
  code : BlockCode
  marks : ∀ i ∈ markers, i.op.isDebugLine = true := by decide
  clean : code.Clean := by decide

/-- The instructions of a group in a row. -/
def Group.instructions (x : Group) : List Instruction := x.markers ++ x.code.instructions

/-- A label of the function. -/
def Function.Defines (f : Function) (l : Id) : Prop := ∃ i ∈ f.instructions, i.op = .label ∧ i.result = l

instance (f : Function) (l : Id) : Decidable (f.Defines l) :=
  inferInstanceAs (Decidable (∃ i ∈ f.instructions, i.op = .label ∧ i.result = l))

/-- The function is the groups, and line markers behind the last one. -/
structure Parses (f : Function) (groups : List Group) (trailing : List Instruction) : Prop where
  stream : f.instructions = groups.flatMap Group.instructions ++ trailing
  nonempty : groups ≠ []
  trails : ∀ i ∈ trailing, i.op.isDebugLine = true
  distinct : (groups.map (·.code.label.result)).Nodup

/-- The terminator and the merge instruction right before it decode, and the function defines the labels in them. -/
structure Resolves (f : Function) (c : BlockCode) : Prop where
  targets : ∃ labels, c.terminator.branchTargets? = some labels ∧ ∀ l ∈ labels, f.Defines l
  merge : ∀ m, c.body.getLast? = some m → m.op.isMerge = true →
    ∃ labels, mergeLabels? m = some labels ∧ ∀ l ∈ labels, f.Defines l

namespace FlowGraph

/-- What one more instruction can do. -/
theorem step_cases {f : Function} {c c' : Cut} {i : Instruction} (h : c.step f i = .ok c') :
    (c.open? = none ∧ i.op.isDebugLine = true ∧ c' = c) ∨
    (c.open? = none ∧ i.op = .label ∧
      c' = { c with open? := some ⟨i.result, f.nameOf i.result, i.position, []⟩ }) ∨
    ∃ b, c.open? = some b ∧ i.op ≠ .label ∧
      ((i.op.isTerminator = true ∧ c' = ⟨c.blocks ++ [{ b with instructions := b.instructions ++ [i] }], none⟩) ∨
        (i.op.isTerminator = false ∧ c' = { c with open? := some { b with instructions := b.instructions ++ [i] } })) := by
  unfold Cut.step at h
  cases hopen : c.open? with
  | none =>
    simp only [hopen] at h
    split at h
    · cases h
      exact Or.inl ⟨rfl, ‹_›, rfl⟩
    · split at h
      · cases h
      · split at h
        · cases h
        · cases h
          exact Or.inr (Or.inl ⟨rfl, by simpa using ‹¬i.op ≠ .label›, rfl⟩)
  | some b =>
    simp only [hopen] at h
    split at h
    · cases h
    · refine Or.inr (Or.inr ⟨b, rfl, ‹_›, ?_⟩)
      split at h
      · cases h
        exact Or.inl ⟨‹_›, rfl⟩
      · cases h
        exact Or.inr ⟨by simpa using ‹¬i.op.isTerminator = true›, rfl⟩

/-- The instructions since the last whole block: line markers, and the beginning of a block if one is open. -/
inductive Pending : Option Block → List Instruction → Prop
  | outside {markers : List Instruction} (marks : ∀ i ∈ markers, i.op.isDebugLine = true) : Pending none markers
  | inside {b : Block} {markers body : List Instruction} {label : Instruction}
    (marks : ∀ i ∈ markers, i.op.isDebugLine = true) (opens : label.op = .label)
    (runs : ∀ i ∈ body, i.op.isTerminator = false) (clean : ∀ i ∈ body, i.op ≠ .label) :
    Pending (some b) (markers ++ label :: body)

/-- The instructions that were read are groups, and then what belongs to no group yet. -/
def Reads (is : List Instruction) (c : Cut) : Prop :=
  ∃ (groups : List Group) (tail : List Instruction), is = groups.flatMap Group.instructions ++ tail ∧ Pending c.open? tail

theorem Reads.step {f : Function} {is : List Instruction} {c c' : Cut} {i : Instruction} (h : Reads is c)
    (hstep : c.step f i = .ok c') : Reads (is ++ [i]) c' := by
  obtain ⟨groups, tail, rfl, hpending⟩ := h
  rcases step_cases hstep with ⟨hopen, hline, rfl⟩ | ⟨hopen, hlabel, rfl⟩ | ⟨b, hopen, hlabel, hend⟩
  · rw [hopen] at hpending
    cases hpending with
    | outside marks =>
      refine ⟨groups, tail ++ [i], List.append_assoc .., ?_⟩
      rw [hopen]
      exact .outside (List.forall_mem_append.mpr ⟨marks, List.forall_mem_singleton.mpr hline⟩)
  · rw [hopen] at hpending
    cases hpending with
    | outside marks =>
      exact ⟨groups, tail ++ [i], List.append_assoc .., .inside marks hlabel (by simp) (by simp)⟩
  · rw [hopen] at hpending
    cases hpending with
    | @inside _ markers body label marks opens runs clean =>
      rcases hend with ⟨hterminator, rfl⟩ | ⟨hterminator, rfl⟩
      · -- The block is whole, and a group together with the markers before it.
        refine ⟨groups ++ [⟨markers, ⟨label, body, i, opens, runs, hterminator⟩, marks, clean⟩], [], ?_, .outside (by simp)⟩
        simp [Group.instructions, BlockCode.instructions]
      · refine ⟨groups, markers ++ label :: (body ++ [i]), by simp, .inside marks opens ?_ ?_⟩
        · exact List.forall_mem_append.mpr ⟨runs, List.forall_mem_singleton.mpr hterminator⟩
        · exact List.forall_mem_append.mpr ⟨clean, List.forall_mem_singleton.mpr hlabel⟩

theorem Reads.foldlM {f : Function} {done is : List Instruction} {c c' : Cut} (h : Reads done c)
    (hrun : is.foldlM (Cut.step f) c = .ok c') : Reads (done ++ is) c' := by
  induction is generalizing done c with
  | nil =>
    cases hrun
    simpa using h
  | cons i is ih =>
    rw [List.foldlM_cons] at hrun
    obtain ⟨next, hnext, hrun⟩ := Except.bind_eq_ok_iff.mp hrun
    simpa using ih (h.step hnext) hrun

theorem foldlM_markers {f : Function} {blocks : List Block} {is : List Instruction}
    (h : ∀ i ∈ is, i.op.isDebugLine = true) : is.foldlM (Cut.step f) ⟨blocks, none⟩ = .ok ⟨blocks, none⟩ := by
  induction is with
  | nil => rfl
  | cons i is ih =>
    obtain ⟨hi, hrest⟩ := List.forall_mem_cons.mp h
    have hstep : Cut.step f ⟨blocks, none⟩ i = .ok ⟨blocks, none⟩ := by simp [Cut.step, hi]
    rw [List.foldlM_cons, hstep]
    exact ih hrest

/-- The line markers between blocks are passed over. -/
theorem foldlM_groups {f : Function} {groups : List Group} {blocks : List Block} {cut : Cut} :
    (groups.flatMap Group.instructions).foldlM (Cut.step f) ⟨blocks, none⟩ = .ok cut ↔
      (groups.flatMap (·.code.instructions)).foldlM (Cut.step f) ⟨blocks, none⟩ = .ok cut := by
  induction groups generalizing blocks with
  | nil => rfl
  | cons x groups ih =>
    simp only [List.flatMap_cons, Group.instructions, List.foldlM_append, foldlM_markers x.marks, Except.bind_eq_ok_iff,
      Except.ok.injEq, exists_eq_left', BlockCode.foldlM_instructions]
    refine exists_congr fun next => and_congr_right ?_
    rintro ⟨-, -, rfl⟩
    exact ih

/-- The cut that a function ends with, outside of every block. -/
theorem foldlM_parses {f : Function} {groups : List Group} {trailing : List Instruction} {cut : Cut}
    (stream : f.instructions = groups.flatMap Group.instructions ++ trailing)
    (trails : ∀ i ∈ trailing, i.op.isDebugLine = true) :
    f.instructions.foldlM (Cut.step f) {} = .ok cut ↔
      (groups.map (·.code.label.result)).Nodup ∧ cut = ⟨groups.map (·.code.block f), none⟩ := by
  have hcodes : ∀ {cut}, (groups.flatMap Group.instructions).foldlM (Cut.step f) ⟨[], none⟩ = .ok cut ↔
      (groups.map (·.code.label.result)).Nodup ∧ cut = ⟨groups.map (·.code.block f), none⟩ := by
    intro cut
    rw [foldlM_groups, ← List.flatMap_map, BlockCode.foldlM_codes]
    simp [Group.clean, Function.comp_def]
  rw [stream, List.foldlM_append, Except.bind_eq_ok_iff, show ({} : Cut) = ⟨[], none⟩ from rfl]
  simp only [hcodes]
  constructor
  · rintro ⟨_, ⟨hnodup, rfl⟩, htrailing⟩
    rw [foldlM_markers trails] at htrailing
    cases htrailing
    exact ⟨hnodup, rfl⟩
  · rintro ⟨hnodup, rfl⟩
    exact ⟨_, ⟨hnodup, rfl⟩, foldlM_markers trails⟩

/-- A run that ends outside of every block has read groups. -/
theorem exists_groups {f : Function} {blocks : List Block}
    (h : f.instructions.foldlM (Cut.step f) {} = .ok ⟨blocks, none⟩) :
    ∃ (groups : List Group) (trailing : List Instruction), f.instructions = groups.flatMap Group.instructions ++ trailing ∧
      (∀ i ∈ trailing, i.op.isDebugLine = true) ∧ (groups.map (·.code.label.result)).Nodup ∧
      blocks = groups.map (·.code.block f) := by
  have hstart : Reads [] {} := ⟨[], [], rfl, .outside (by simp)⟩
  obtain ⟨groups, trailing, hstream, hpending⟩ := hstart.foldlM h
  rw [List.nil_append] at hstream
  cases hpending with
  | outside trails =>
    obtain ⟨hnodup, hcut⟩ := (foldlM_parses hstream trails).mp h
    cases hcut
    exact ⟨groups, trailing, hstream, trails, hnodup, rfl⟩

theorem cutBlocks_eq_ok_iff {f : Function} {blocks : List Block} :
    cutBlocks f = .ok blocks ↔ f.instructions.foldlM (Cut.step f) {} = .ok ⟨blocks, none⟩ ∧ blocks ≠ [] := by
  unfold cutBlocks
  rw [Except.bind_eq_ok_iff]
  constructor
  · rintro ⟨⟨cut, _ | b⟩, hrun, hcut⟩
    · simp only at hcut
      split at hcut
      · cases hcut
      · cases hcut
        exact ⟨hrun, by simpa using ‹¬blocks.isEmpty = true›⟩
    · cases hcut
  · rintro ⟨hrun, hne⟩
    exact ⟨_, hrun, by simp [hne]⟩

theorem cutBlocks_of_parses {f : Function} {groups : List Group} {trailing : List Instruction}
    (h : Parses f groups trailing) : cutBlocks f = .ok (groups.map (·.code.block f)) :=
  cutBlocks_eq_ok_iff.mpr ⟨(foldlM_parses h.stream h.trails).mpr ⟨h.distinct, rfl⟩, by simpa using h.nonempty⟩

theorem exists_parses {f : Function} {blocks : List Block} (h : cutBlocks f = .ok blocks) :
    ∃ groups trailing, Parses f groups trailing ∧ blocks = groups.map (·.code.block f) := by
  obtain ⟨hrun, hne⟩ := cutBlocks_eq_ok_iff.mp h
  obtain ⟨groups, trailing, hstream, trails, hnodup, rfl⟩ := exists_groups hrun
  exact ⟨groups, trailing, ⟨hstream, by simpa using hne, trails, hnodup⟩, rfl⟩

/-! ### Linking -/

theorem merge?_code (f : Function) (c : BlockCode) : (c.block f).merge? = c.body.getLast?.filter (·.op.isMerge) :=
  merge?_of_concat rfl

theorem terminator?_code (f : Function) (c : BlockCode) : (c.block f).terminator? = some c.terminator :=
  List.getLast?_concat

/-- The labels of a function are those of its blocks. -/
theorem defines_iff {f : Function} {groups : List Group} {trailing : List Instruction} (h : Parses f groups trailing)
    {l : Id} : f.Defines l ↔ l ∈ (groups.map (·.code.block f)).map (·.label) := by
  have hline : ∀ {i : Instruction}, i.op = .label → i.op.isDebugLine = true → False := fun hop hline => by
    rw [hop] at hline
    cases hline
  simp only [Function.Defines, h.stream, List.map_map, List.mem_map, List.mem_append, List.mem_flatMap]
  constructor
  · rintro ⟨i, ⟨x, hx, hi⟩ | hi, hop, rfl⟩
    · rcases List.mem_append.mp hi with hi | hi
      · exact (hline hop (x.marks i hi)).elim
      · rcases List.mem_cons.mp hi with rfl | hi
        · exact ⟨x, hx, rfl⟩
        · rcases List.mem_append.mp hi with hi | hi
          · exact absurd hop (x.clean i hi)
          · have hcloses := x.code.closes
            rw [← List.mem_singleton.mp hi, hop] at hcloses
            cases hcloses
    · exact (hline hop (h.trails i hi)).elim
  · rintro ⟨x, hx, rfl⟩
    exact ⟨x.code.label, Or.inl ⟨x, hx, by simp [Group.instructions, BlockCode.instructions]⟩, x.code.opens, rfl⟩

theorem namesKnown_iff {f : Function} {groups : List Group} {trailing : List Instruction} (h : Parses f groups trailing)
    {c : BlockCode} : NamesKnown ((groups.map (·.code.block f)).map (·.label)) (c.block f) ↔ Resolves f c := by
  constructor
  · intro hknown
    constructor
    · obtain ⟨i, labels, hi, hlabels, hdefined⟩ := hknown.terminator
      obtain rfl := Option.some.inj ((terminator?_code f c).symm.trans hi)
      exact ⟨labels, hlabels, fun l hl => (defines_iff h).mpr (hdefined l hl)⟩
    · intro m hm hmerge
      obtain ⟨labels, hlabels, hdefined⟩ := hknown.merge m (by simp [merge?_code, hm, hmerge])
      exact ⟨labels, hlabels, fun l hl => (defines_iff h).mpr (hdefined l hl)⟩
  · intro hresolves
    constructor
    · obtain ⟨labels, hlabels, hdefined⟩ := hresolves.targets
      exact ⟨_, labels, terminator?_code f c, hlabels, fun l hl => (defines_iff h).mp (hdefined l hl)⟩
    · intro m hm
      rw [merge?_code, Option.filter_eq_some_iff] at hm
      obtain ⟨labels, hlabels, hdefined⟩ := hresolves.merge m hm.1 hm.2
      exact ⟨labels, hlabels, fun l hl => (defines_iff h).mp (hdefined l hl)⟩

theorem exists_linkBlocks_parses {f : Function} {groups : List Group} {trailing : List Instruction}
    (h : Parses f groups trailing) :
    (∃ links, linkBlocks f (groups.map (·.code.block f)) = .ok links) ↔ ∀ x ∈ groups, Resolves f x.code := by
  rw [exists_linkBlocks_iff, List.forall_mem_map]
  exact forall₂_congr fun x _ => namesKnown_iff h

theorem exists_build_iff_parses {f : Function} :
    (∃ g, build f = .ok g) ↔ ∃ groups trailing, Parses f groups trailing ∧ ∀ x ∈ groups, Resolves f x.code := by
  constructor
  · intro ⟨g, hg⟩
    obtain ⟨blocks, links, hcut, hlinks, -⟩ := build_eq_ok hg
    obtain ⟨groups, trailing, hparses, rfl⟩ := exists_parses hcut
    exact ⟨groups, trailing, hparses, (exists_linkBlocks_parses hparses).mp ⟨links, hlinks⟩⟩
  · intro ⟨groups, trailing, hparses, hresolves⟩
    obtain ⟨links, hlinks⟩ := (exists_linkBlocks_parses hparses).mpr hresolves
    exact ⟨_, build_of_links (cutBlocks_of_parses hparses) hlinks⟩

theorem blocks_of_parses {f : Function} {g : FlowGraph} {groups : List Group} {trailing : List Instruction}
    (h : build f = .ok g) (hparses : Parses f groups trailing) : g.blocks.toList = groups.map (·.code.block f) := by
  obtain ⟨blocks, links, hcut, -, rfl⟩ := build_eq_ok h
  rw [cutBlocks_of_parses hparses] at hcut
  cases hcut
  rfl

/-! ### Errors -/

/-- What is reported of a function that has no graph, other than that it is empty. -/
inductive Flaw : Diagnostic → Prop
  | expectedLabel (found : String) (position : Position) : Flaw (.expectedLabel found position)
  | unterminatedBlock (label : String) (position : Position) : Flaw (.unterminatedBlock label position)
  | missingBranchTargets (opcode : String) (position : Position) : Flaw (.missingBranchTargets opcode position)
  | undefinedLabel (name : String) (position : Position) (labels : List String) :
      Flaw (.undefinedLabel name position labels)
  | duplicateLabel (name : String) (position : Position) : Flaw (.duplicateLabel name position)

/-- The codes of flaws. -/
def flawCodes : List Code :=
  [Code.expectedLabel, Code.unterminatedBlock, Code.missingBranchTargets, Code.undefinedLabel, Code.duplicateLabel]

theorem Flaw.level_code {e : Diagnostic} (h : Flaw e) : e.level = .error ∧ e.code ∈ flawCodes := by
  cases h <;> simp [flawCodes, Diagnostic.expectedLabel, Diagnostic.unterminatedBlock, Diagnostic.missingBranchTargets,
    Diagnostic.undefinedLabel, Diagnostic.duplicateLabel]

theorem Flaw.code_ne {e : Diagnostic} (h : Flaw e) : e.code ≠ Code.emptyFunction :=
  (by decide : ∀ code ∈ flawCodes, code ≠ Code.emptyFunction) e.code h.level_code.2

theorem step_error {f : Function} {c : Cut} {i : Instruction} {e : Diagnostic} (h : c.step f i = .error e) : Flaw e := by
  unfold Cut.step at h
  cases hopen : c.open? with
  | none =>
    simp only [hopen] at h
    split at h
    · cases h
    · split at h
      · cases h
        exact .expectedLabel _ _
      · split at h
        · cases h
          exact .duplicateLabel _ _
        · cases h
  | some b =>
    simp only [hopen] at h
    split at h
    · cases h
      exact .unterminatedBlock _ _
    · split at h <;> cases h

theorem resolve_error {f : Function} {blocks : List Block} {l : Id} {position : Position} {e : Diagnostic}
    (h : resolve f blocks l position = .error e) : Flaw e := by
  unfold resolve at h
  split at h
  · cases h
  · cases h
    exact .undefinedLabel _ _ _

theorem checkMerge_error {f : Function} {blocks : List Block} {b : Block} {e : Diagnostic}
    (h : checkMerge f blocks b = .error e) : Flaw e := by
  unfold checkMerge at h
  split at h
  · cases h
  · split at h
    · cases h
      exact .missingBranchTargets _ _
    · refine error_of_forM (p := Flaw) (fun l => ?_) e h
      exact error_of_bind (fun e hresolve => resolve_error hresolve) fun _ e hok => by cases hok

theorem targetsOf_error {f : Function} {blocks : List Block} {i : Instruction} {e : Diagnostic}
    (h : targetsOf f blocks i = .error e) : Flaw e := by
  unfold targetsOf at h
  split at h
  · cases h
    exact .missingBranchTargets _ _
  · refine error_of_bind (p := Flaw) ?_ (fun _ e hok => by cases hok) e h
    exact error_of_mapM fun l _ e hresolve => resolve_error hresolve

/-- Blocks that end in terminators are linked, or are rejected because of a flaw. -/
theorem linkBlocks_error {f : Function} {blocks : List Block} {halt : BuildHalt}
    (hends : ∀ b ∈ blocks, Terminated b) (h : linkBlocks f blocks = .error halt) : ∃ d, halt = .rejected d ∧ Flaw d := by
  refine error_of_mapM (p := fun halt => ∃ d, halt = .rejected d ∧ Flaw d) (fun b hb => ?_) halt h
  obtain ⟨i, hi, -⟩ := hends b hb
  refine error_of_bind (error_of_mapError fun d hd => ⟨d, rfl, checkMerge_error hd⟩) fun _ => ?_
  rw [hi]
  exact error_of_mapError fun d hd => ⟨d, rfl, targetsOf_error hd⟩

/-- Cutting fails because there was nothing to cut, or because of a flaw. -/
theorem cutBlocks_error_cases {f : Function} {e : Diagnostic} (h : cutBlocks f = .error e) :
    (f.instructions.foldlM (Cut.step f) {} = .ok ⟨[], none⟩ ∧ e = .emptyFunction f.name) ∨ Flaw e := by
  unfold cutBlocks at h
  cases hrun : f.instructions.foldlM (Cut.step f) {} with
  | error e' =>
    rw [hrun] at h
    cases h
    exact Or.inr (error_of_foldlM (p := Flaw) (fun _ _ _ => step_error) {} e hrun)
  | ok cut =>
    rw [hrun] at h
    obtain ⟨_ | ⟨b, blocks⟩, _ | b⟩ := cut <;> cases h
    · exact Or.inl ⟨rfl, rfl⟩
    · exact Or.inr (.unterminatedBlock _ _)
    · exact Or.inr (.unterminatedBlock _ _)

/-- A function without a graph is rejected, since it has no instructions to speak of or because of a flaw. -/
theorem build_error {f : Function} {halt : BuildHalt} (h : build f = .error halt) :
    ∃ d, halt = .rejected d ∧ (cutBlocks f = .error d ∨ (∃ blocks, cutBlocks f = .ok blocks) ∧ Flaw d) := by
  rw [build_eq_bind] at h
  cases hcut : cutBlocks f with
  | error d =>
    rw [hcut] at h
    cases h
    exact ⟨d, rfl, Or.inl rfl⟩
  | ok blocks =>
    rw [hcut] at h
    change (linkBlocks f blocks >>= fun links => .ok (ofLinks f blocks links)) = .error halt at h
    cases hlinks : linkBlocks f blocks with
    | error halt' =>
      rw [hlinks] at h
      cases h
      obtain ⟨d, rfl, hflaw⟩ := linkBlocks_error (cutBlocks_ok hcut).2 hlinks
      exact ⟨d, rfl, Or.inr ⟨⟨blocks, rfl⟩, hflaw⟩⟩
    | ok links =>
      rw [hlinks] at h
      cases h

/-- What may be reported of a function without a graph. -/
theorem build_flaw {f : Function} {d : Diagnostic} (h : build f = .error (.rejected d)) :
    d = .emptyFunction f.name ∨ Flaw d := by
  obtain ⟨_, ⟨⟩, hcut | ⟨-, hflaw⟩⟩ := build_error h
  · exact (cutBlocks_error_cases hcut).imp_left And.right
  · exact Or.inr hflaw

/-- Nothing else than line markers is in a function that has no instructions to speak of. -/
theorem cutBlocks_error {f : Function} {e : Diagnostic} (h : cutBlocks f = .error e) :
    e.code = Code.emptyFunction ↔ ∀ i ∈ f.instructions, i.op.isDebugLine = true := by
  constructor
  · intro hcode
    rcases cutBlocks_error_cases h with ⟨hrun, -⟩ | hflaw
    · obtain ⟨groups, trailing, hstream, trails, -, hgroups⟩ := exists_groups hrun
      obtain rfl : groups = [] := by simpa using hgroups
      rw [hstream]
      simpa using trails
    · exact absurd hcode hflaw.code_ne
  · intro hlines
    unfold cutBlocks at h
    rw [show ({} : Cut) = ⟨[], none⟩ from rfl, foldlM_markers hlines] at h
    cases h
    rfl

theorem build_error_code {f : Function} {d : Diagnostic} (h : build f = .error (.rejected d)) :
    d.code = Code.emptyFunction ↔ ∀ i ∈ f.instructions, i.op.isDebugLine = true := by
  obtain ⟨_, ⟨⟩, hcut | ⟨⟨blocks, hcut⟩, hflaw⟩⟩ := build_error h
  · exact cutBlocks_error hcut
  · -- There are blocks, so there is more than line markers, and linking does not report an empty function.
    refine ⟨fun hcode => absurd hcode hflaw.code_ne, fun hlines => ?_⟩
    rw [cutBlocks_eq_ok_iff, show ({} : Cut) = ⟨[], none⟩ from rfl, foldlM_markers hlines] at hcut
    obtain ⟨hcut, hne⟩ := hcut
    cases hcut
    exact absurd rfl hne

end FlowGraph

/-- A function has a graph if and only if it is blocks between line markers, with distinct labels and with all labels
that the blocks name defined. The blocks of the graph are then those of the function, in order. A function that has no
graph is rejected, and it is reported as empty if and only if nothing but line markers is in it. -/
theorem build_accepts_grammar (f : Function) :
    ((∃ g, FlowGraph.build f = .ok g) ↔ ∃ groups trailing, Parses f groups trailing ∧ ∀ x ∈ groups, Resolves f x.code) ∧
    (∀ g groups trailing, FlowGraph.build f = .ok g → Parses f groups trailing →
      g.blocks.toList.map (fun b => (b.label, b.instructions)) =
        groups.map fun x => (x.code.label.result, x.code.body ++ [x.code.terminator])) ∧
    ∀ e, FlowGraph.build f = .error e → ∃ d, e = .rejected d ∧
      (d.code = "E0201" ↔ ∀ i ∈ f.instructions, i.op.isDebugLine = true) := by
  refine ⟨exists_build_iff_parses, fun g groups trailing hg hparses => ?_, fun e he => ?_⟩
  · rw [blocks_of_parses hg hparses, List.map_map]
    rfl
  · obtain ⟨d, rfl, -⟩ := build_error he
    exact ⟨d, rfl, build_error_code he⟩

/-- Two blocks with line markers around them and in the second one. -/
def markedGroups : List Group := [
  { markers := [{ op := .noLine }],
    code := { label := { op := .label, result := 1 }, body := [{ op := .selectionMerge, operands := [.ofId 2] }],
              terminator := { op := .branchConditional, operands := [.ofId 9, .ofId 1, .ofId 2] } } },
  { markers := [{ op := .line }, { op := .line }],
    code := { label := { op := .label, result := 2 }, body := [{ op := .line }], terminator := { op := .return } } }]

def markedSample : Function where
  name := "marked"
  instructions := markedGroups.flatMap Group.instructions ++ [{ op := .noLine }]

theorem markedSample_parses : Parses markedSample markedGroups [{ op := .noLine }] ∧
    ∀ x ∈ markedGroups, Resolves markedSample x.code := by
  have hfirst : markedSample.Defines 1 := by decide
  have hsecond : markedSample.Defines 2 := by decide
  refine ⟨⟨rfl, by decide, by decide, by decide⟩, ?_⟩
  intro x hx
  rcases List.mem_pair.mp hx with rfl | rfl
  · refine ⟨⟨[1, 2], rfl, by simp [hfirst, hsecond]⟩, fun m hm _ => ?_⟩
    cases hm
    exact ⟨[2], rfl, by simp [hsecond]⟩
  · refine ⟨⟨[], rfl, by simp⟩, fun m hm hmerge => ?_⟩
    cases hm
    cases hmerge

/-- The markers between the blocks of the sample are in no block, and the one in a block is part of it. Where nothing
else is there, the function is empty. -/
theorem build_accepts_grammar_marked : (∃ g, FlowGraph.build markedSample = .ok g ∧
    g.blocks.toList.map (fun b => (b.label, b.instructions.map (·.op))) =
      [(1, [.selectionMerge, .branchConditional]), (2, [.line, .return])]) ∧
    ∃ d, FlowGraph.build { name := "markers", instructions := [{ op := .line }] } = .error (.rejected d) ∧
      d.code = "E0201" := by
  obtain ⟨hparses, hresolves⟩ := markedSample_parses
  obtain ⟨haccepts, hblocks, -⟩ := build_accepts_grammar markedSample
  obtain ⟨g, hg⟩ := haccepts.mpr ⟨_, _, hparses, hresolves⟩
  obtain ⟨d, ⟨⟩, hempty⟩ := (build_accepts_grammar { name := "markers", instructions := [{ op := .line }] }).2.2 _ rfl
  refine ⟨⟨g, hg, ?_⟩, _, rfl, hempty.mpr (by decide)⟩
  have h := congrArg (List.map fun block => (block.1, block.2.map (·.op))) (hblocks g _ _ hg hparses)
  rw [List.map_map] at h
  exact h

end FlowTree
