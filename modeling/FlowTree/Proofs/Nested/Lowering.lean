import FlowTree.Proofs.FlowGraph.Layout
import FlowTree.Proofs.Nested.Program

/-!
The graph of a nested program. Blocks whose labels are distinct are cut from a function as they were put in,
and they are linked since a program names no label but its own. So each block of the program is found in the
graph under its label, with its merge instruction and its terminator (`Hosted`).
-/

namespace FlowTree
namespace Nested

open FlowGraph

section
variable (condition whenTrue whenFalse selector default merge continueTarget : Id) (cases : List SwitchCase)

theorem isTerminator_leave (next? : Option Id) : (leave next?).op.isTerminator = true := by
  cases next? <;> rfl

theorem branchTargets?_leave (next? : Option Id) : (leave next?).branchTargets? = some next?.toList := by
  cases next? <;> rfl

theorem conditionalTargets?_branchConditional :
    (branchConditional condition whenTrue whenFalse).conditionalTargets? = some (whenTrue, whenFalse) := rfl

theorem casesOf?_caseOperands : Instruction.casesOf? (caseOperands cases) = some cases := by
  induction cases with
  | nil => rfl
  | cons case cases ih =>
    have hcons : caseOperands (case :: cases) =
        .ofLiteral case.literal :: .ofId case.target :: caseOperands cases := rfl
    simp [hcons, Instruction.casesOf?, Operand.ofLiteral, Operand.ofId, ih]

theorem switchCases?_branchSwitch :
    (branchSwitch selector default cases).switchCases? = some (default, cases) := by
  have hcases : Instruction.casesOf? ((branchSwitch selector default cases).operands.drop 2) = some cases :=
    casesOf?_caseOperands cases
  have hdefault : (branchSwitch selector default cases).idAt? 1 = some default := rfl
  unfold Instruction.switchCases?
  rw [hcases, hdefault]
  rfl

theorem branchTargets?_branchSwitch :
    (branchSwitch selector default cases).branchTargets? = some (default :: cases.map (·.target)) := by
  have hcases := switchCases?_branchSwitch selector default cases
  unfold Instruction.branchTargets?
  rw [hcases]
  rfl

end

/-- The segment ends like a block, and every label that its end names is among the known ones. -/
structure Segment.Fits (known : List Id) (s : Segment) : Prop where
  terminator : s.terminator.op.isTerminator = true
  targets : ∃ labels, s.terminator.branchTargets? = some labels ∧ ∀ l ∈ labels, l ∈ known
  merge : ∀ m, s.merge? = some m → m.op.isMerge = true ∧ ∃ labels, mergeLabels? m = some labels ∧ ∀ l ∈ labels, l ∈ known

/-- A body starts with the block that has its first label. -/
theorem Item.exists_lower_eq_cons (item : Item) (next : Id) :
    ∃ s rest, item.lower next = s :: rest ∧ s.label = item.label := by
  cases item <;> rw [Item.lower] <;> exact ⟨_, _, rfl, rfl⟩

theorem Body.exists_lower_eq_cons (body : Body) (next? : Option Id) :
    ∃ s rest, body.lower next? = s :: rest ∧ s.label = body.first := by
  cases body with
  | last block => exact ⟨_, [], rfl, rfl⟩
  | cons item rest =>
    obtain ⟨s, more, hlower, hlabel⟩ := item.exists_lower_eq_cons rest.first
    exact ⟨s, more ++ rest.lower next?, by rw [Body.lower, hlower, List.cons_append], hlabel⟩

theorem Body.first_mem (body : Body) (next? : Option Id) : body.first ∈ (body.lower next?).map Segment.label := by
  obtain ⟨s, rest, hlower, hlabel⟩ := body.exists_lower_eq_cons next?
  rw [hlower, ← hlabel]
  exact List.mem_cons_self

/-- A part is missing, or it starts with the block that has its first label. -/
theorem Arm.firstOr_eq_or (arm : Arm) (other next : Id) :
    arm = .missing ∨ ∃ s ∈ arm.lower next, s.label = arm.firstOr other := by
  cases arm with
  | missing => exact Or.inl rfl
  | present body =>
    rw [Arm.lower]
    exact Or.inr (List.mem_map.mp (body.first_mem (some next)))

/-- A case and the label that it goes on at. -/
structure Entry where
  body : Body
  next : Id

namespace Cases

/-- The cases of a switch that goes on at the given label. -/
def entries (next : Id) : Cases → List Entry
  | .default body => [⟨body, next⟩]
  | .case _ falls body rest => ⟨body, if falls then rest.first else next⟩ :: rest.entries next

theorem lower_eq_flatMap (next : Id) :
    ∀ cases : Cases, cases.lower next = (cases.entries next).flatMap fun e => e.body.lower (some e.next)
  | .default body => by simp [Cases.lower, entries]
  | .case _ falls body rest => by simp [Cases.lower, entries, lower_eq_flatMap next rest]

theorem shapes_eq_map (next : Id) :
    ∀ cases : Cases, cases.shapes = (cases.entries next).map fun e => .node .case e.body.shapes
  | .default body => by simp [Cases.shapes, entries]
  | .case _ falls body rest => by simp [Cases.shapes, entries, shapes_eq_map next rest]

/-- The labels of the cases, that of the default at the end. -/
theorem targets_eq_map (next : Id) :
    ∀ cases : Cases, cases.branches.map (·.target) ++ [cases.defaultLabel] = (cases.entries next).map (·.body.first)
  | .default body => by simp [branches, defaultLabel, entries]
  | .case _ falls body rest => by simp [branches, defaultLabel, entries, targets_eq_map next rest]

theorem exists_entries_eq_cons (next : Id) (cases : Cases) :
    ∃ e rest, cases.entries next = e :: rest ∧ e.body.first = cases.first := by
  cases cases <;> exact ⟨_, _, rfl, rfl⟩

/-- A case goes on where the switch does, or at the case behind it. -/
theorem next_entries (next : Id) : ∀ (cases : Cases) {i : Nat} {e : Entry}, (cases.entries next)[i]? = some e →
    e.next = next ∨ ∃ e', (cases.entries next)[i + 1]? = some e' ∧ e.next = e'.body.first
  | .default body, i, e, h => by
    have he : e ∈ [(⟨body, next⟩ : Entry)] := List.mem_of_getElem? h
    rw [List.mem_singleton.mp he]
    exact Or.inl rfl
  | .case _ falls body rest, 0, e, h => by
    cases h
    cases falls with
    | false => exact Or.inl rfl
    | true =>
      obtain ⟨e', more, hentries, hfirst⟩ := rest.exists_entries_eq_cons next
      exact Or.inr ⟨e', by simp [entries, hentries], hfirst.symm⟩
  | .case _ falls body rest, i + 1, e, h => by
    rw [entries, List.getElem?_cons_succ] at h ⊢
    exact next_entries next rest h

/-- The default goes on where the switch does. -/
theorem exists_default (next : Id) : ∀ cases : Cases, ∃ e ∈ cases.entries next, e.next = next
  | .default body => ⟨⟨body, next⟩, List.mem_singleton_self _, rfl⟩
  | .case _ _ _ rest => by
    obtain ⟨e, he, hnext⟩ := exists_default next rest
    exact ⟨e, List.mem_cons_of_mem _ he, hnext⟩

end Cases

theorem Entry.first_mem {entries : List Entry} {e : Entry} (he : e ∈ entries) :
    e.body.first ∈ (entries.flatMap fun e => e.body.lower (some e.next)).map Segment.label := by
  rw [List.map_flatMap]
  exact List.mem_flatMap.mpr ⟨e, he, e.body.first_mem _⟩

/-! ### A program names its own labels -/

theorem Arm.firstOr_known {known : List Id} (arm : Arm) {next next' : Id} (hnext : next ∈ known)
    (hlabels : (arm.lower next').map Segment.label ⊆ known) : arm.firstOr next ∈ known := by
  cases arm with
  | missing => exact hnext
  | present body =>
    rw [Arm.lower] at hlabels
    exact hlabels (body.first_mem (some next'))

theorem Cases.targets_known {known : List Id} (cases : Cases) {next : Id}
    (hlabels : (cases.lower next).map Segment.label ⊆ known) :
    ∀ l ∈ cases.branches.map (·.target) ++ [cases.defaultLabel], l ∈ known := by
  intro l hl
  rw [cases.targets_eq_map next] at hl
  obtain ⟨e, he, rfl⟩ := List.mem_map.mp hl
  rw [cases.lower_eq_flatMap next] at hlabels
  exact hlabels (Entry.first_mem he)

theorem Cases.first_mem (cases : Cases) (next : Id) : cases.first ∈ (cases.lower next).map Segment.label := by
  obtain ⟨e, rest, hentries, hfirst⟩ := cases.exists_entries_eq_cons next
  rw [cases.lower_eq_flatMap next, ← hfirst]
  exact Entry.first_mem (hentries ▸ List.mem_cons_self)

section
variable {known : List Id} {header : Opening}

theorem fits_leave {next? : Option Id} (h : ∀ l ∈ next?, l ∈ known) :
    (⟨header, none, leave next?⟩ : Segment).Fits known where
  terminator := isTerminator_leave next?
  targets := ⟨_, branchTargets?_leave next?, fun l hl => h l (Option.mem_toList.mp hl)⟩
  merge m hm := by cases hm

theorem fits_ifThen {condition next whenTrue whenFalse : Id} (hnext : next ∈ known) (htrue : whenTrue ∈ known)
    (hfalse : whenFalse ∈ known) :
    (⟨header, some (declareSelection next), branchConditional condition whenTrue whenFalse⟩ : Segment).Fits known where
  terminator := rfl
  targets := ⟨[whenTrue, whenFalse], rfl, by simpa using ⟨htrue, hfalse⟩⟩
  merge m hm := by
    cases hm
    exact ⟨rfl, [next], rfl, by simpa using hnext⟩

theorem fits_loop {condition next continueTarget first : Id} (hnext : next ∈ known) (hcontinue : continueTarget ∈ known)
    (hfirst : first ∈ known) :
    (⟨header, some (declareLoop next continueTarget), branchConditional condition first next⟩ : Segment).Fits known where
  terminator := rfl
  targets := ⟨[first, next], rfl, by simpa using ⟨hfirst, hnext⟩⟩
  merge m hm := by
    cases hm
    exact ⟨rfl, [next, continueTarget], rfl, by simpa using ⟨hnext, hcontinue⟩⟩

theorem fits_switch {selector next default : Id} {branches : List SwitchCase} (hnext : next ∈ known)
    (hdefault : default ∈ known) (hbranches : ∀ case ∈ branches, case.target ∈ known) :
    (⟨header, some (declareSelection next), branchSwitch selector default branches⟩ : Segment).Fits known where
  terminator := rfl
  targets := ⟨_, branchTargets?_branchSwitch selector default branches, by simpa using ⟨hdefault, hbranches⟩⟩
  merge m hm := by
    cases hm
    exact ⟨rfl, [next], rfl, by simpa using hnext⟩

end

mutual

theorem Body.fits {known : List Id} : ∀ (body : Body) (next? : Option Id), (∀ l ∈ next?, l ∈ known) →
    (body.lower next?).map Segment.label ⊆ known → ∀ s ∈ body.lower next?, s.Fits known
  | .last block, next?, hnext, _, s, hs => by
    rw [Body.lower, List.mem_singleton] at hs
    exact hs ▸ fits_leave hnext
  | .cons item rest, next?, hnext, hlabels, s, hs => by
    rw [Body.lower, List.map_append, List.append_subset] at hlabels
    rw [Body.lower, List.mem_append] at hs
    rcases hs with hs | hs
    · exact item.fits rest.first (hlabels.2 (rest.first_mem next?)) hlabels.1 s hs
    · exact rest.fits next? hnext hlabels.2 s hs

theorem Item.fits {known : List Id} : ∀ (item : Item) (next : Id), next ∈ known →
    (item.lower next).map Segment.label ⊆ known → ∀ s ∈ item.lower next, s.Fits known
  | .plain block, next, hnext, _, s, hs => by
    rw [Item.lower, List.mem_singleton] at hs
    exact hs ▸ fits_leave (by simpa using hnext)
  | .ifThen header condition whenTrue whenFalse, next, hnext, hlabels, s, hs => by
    rw [Item.lower, List.map_cons, List.map_append, List.cons_subset, List.append_subset] at hlabels
    obtain ⟨-, htrue, hfalse⟩ := hlabels
    rw [Item.lower, List.mem_cons, List.mem_append] at hs
    rcases hs with rfl | hs | hs
    · exact fits_ifThen hnext (whenTrue.firstOr_known hnext htrue) (whenFalse.firstOr_known hnext hfalse)
    · exact whenTrue.fits next hnext htrue s hs
    · exact whenFalse.fits next hnext hfalse s hs
  | .loop header condition body continuing, next, hnext, hlabels, s, hs => by
    rw [Item.lower, List.map_cons, List.map_append, List.cons_subset, List.append_subset] at hlabels
    obtain ⟨(hheader : header.label ∈ known), hbody, hcontinuing⟩ := hlabels
    have htarget := continuing.firstOr_known hheader hcontinuing
    rw [Item.lower, List.mem_cons, List.mem_append] at hs
    rcases hs with rfl | hs | hs
    · exact fits_loop hnext htarget (hbody (body.first_mem _))
    · exact body.fits _ (by simpa using htarget) hbody s hs
    · exact continuing.fits header.label hheader hcontinuing s hs
  | .switch header selector cases, next, hnext, hlabels, s, hs => by
    rw [Item.lower, List.map_cons, List.cons_subset] at hlabels
    rw [Item.lower, List.mem_cons] at hs
    rcases hs with rfl | hs
    · have htargets := cases.targets_known hlabels.2
      exact fits_switch hnext (htargets _ (by simp)) fun case hcase =>
        htargets _ (List.mem_append_left _ (List.mem_map_of_mem hcase))
    · exact cases.fits next hnext hlabels.2 s hs

theorem Arm.fits {known : List Id} : ∀ (arm : Arm) (next : Id), next ∈ known →
    (arm.lower next).map Segment.label ⊆ known → ∀ s ∈ arm.lower next, s.Fits known
  | .missing, _, _, _, s, hs => by
    rw [Arm.lower] at hs
    cases hs
  | .present body, next, hnext, hlabels, s, hs => by
    rw [Arm.lower] at hlabels hs
    exact body.fits (some next) (by simpa using hnext) hlabels s hs

theorem Cases.fits {known : List Id} : ∀ (cases : Cases) (next : Id), next ∈ known →
    (cases.lower next).map Segment.label ⊆ known → ∀ s ∈ cases.lower next, s.Fits known
  | .default body, next, hnext, hlabels, s, hs => by
    rw [Cases.lower] at hlabels hs
    exact body.fits (some next) (by simpa using hnext) hlabels s hs
  | .case _ falls body rest, next, hnext, hlabels, s, hs => by
    rw [Cases.lower, List.map_append, List.append_subset] at hlabels
    rw [Cases.lower, List.mem_append] at hs
    rcases hs with hs | hs
    · refine body.fits _ (fun l hl => ?_) hlabels.1 s hs
      rw [Option.mem_some] at hl
      subst hl
      split
      · exact hlabels.2 (rest.first_mem next)
      · exact hnext
    · exact rest.fits next hnext hlabels.2 s hs

end

/-! ### The blocks of segments -/

/-- The block that a segment becomes. -/
def Segment.block (f : Function) (s : Segment) : Block :=
  { label := s.label, name := f.nameOf s.label, position := {}, instructions := s.inside }

section
variable {f : Function} {known : List Id} {s : Segment}

/-- A segment that fits is the code of a block. -/
theorem Segment.Fits.exists_code (hs : s.Fits known) (f : Function) :
    ∃ c : BlockCode, c.Clean ∧ c.instructions = s.instructions ∧ c.label.result = s.label ∧ c.block f = s.block f := by
  have hinside : ∀ i ∈ s.opening.code ++ s.merge?.toList, i.op ≠ .label ∧ i.op.isTerminator = false := by
    intro i hi
    rcases List.mem_append.mp hi with hi | hi
    · have := s.opening.ordinary i hi
      simp only [Opcode.isOrdinary, Bool.and_eq_true, decide_eq_true_eq, Bool.not_eq_true'] at this
      exact this.1
    · have := (hs.merge i (Option.mem_toList.mp hi)).1
      cases hop : i.op <;> simp_all [Opcode.isMerge, Opcode.isTerminator]
  refine ⟨⟨openBlock s.label, s.opening.code ++ s.merge?.toList, s.terminator, rfl, fun i hi => (hinside i hi).2,
    hs.terminator⟩, fun i hi => (hinside i hi).1, rfl, rfl, rfl⟩

theorem terminator?_block (f : Function) (s : Segment) : (s.block f).terminator? = some s.terminator := by
  simp [Block.terminator?, Segment.block, Segment.inside]

theorem merge?_block (hs : s.Fits known) : (s.block f).merge? = s.merge? := by
  have hreverse : (s.block f).instructions.reverse =
      s.terminator :: (s.merge?.toList.reverse ++ s.opening.code.reverse) := by
    simp [Segment.block, Segment.inside]
  unfold Block.merge?
  rw [hreverse]
  cases hmerge : s.merge? with
  | some m => simp [(hs.merge m hmerge).1]
  | none =>
    cases hcode : s.opening.code.reverse with
    | nil => simp
    | cons i rest =>
      have hi : i ∈ s.opening.code := by
        rw [← List.mem_reverse, hcode]
        exact List.mem_cons_self
      have := s.opening.ordinary i hi
      simp only [Opcode.isOrdinary, Bool.and_eq_true, Bool.not_eq_true'] at this
      simp [this.2]

theorem Segment.Fits.namesKnown (hs : s.Fits known) : NamesKnown known (s.block f) where
  terminator := by
    obtain ⟨labels, hlabels, hknown⟩ := hs.targets
    exact ⟨_, labels, terminator?_block f s, hlabels, hknown⟩
  merge m hm := (hs.merge m ((merge?_block hs).symm.trans hm)).2

variable {segments : List Segment}

theorem Segment.exists_codes (hfits : ∀ s ∈ segments, s.Fits known) (f : Function) :
    ∃ codes : List BlockCode, (∀ c ∈ codes, c.Clean) ∧
      codes.flatMap BlockCode.instructions = segments.flatMap Segment.instructions ∧
      codes.map (·.label.result) = segments.map Segment.label ∧
      codes.map (BlockCode.block f) = segments.map (Segment.block f) := by
  obtain ⟨codes, hcodes⟩ := exists_forall₂ fun s hs => (hfits s hs).exists_code f
  refine ⟨codes, fun c hc => ?_, ?_⟩
  · obtain ⟨s, -, hclean, -⟩ := exists_of_mem_right hcodes hc
    exact hclean
  · clear hfits
    induction hcodes with
    | nil => exact ⟨rfl, rfl, rfl⟩
    | cons h _ ih =>
      obtain ⟨-, hinstructions, hlabel, hblock⟩ := h
      obtain ⟨ihinstructions, ihlabels, ihblocks⟩ := ih
      simp [List.flatMap_cons, hinstructions, hlabel, hblock, ihinstructions, ihlabels, ihblocks]

/-- Segments that name each other's labels make a graph with their blocks. -/
theorem build_segments (hne : segments ≠ []) (hfits : ∀ s ∈ segments, s.Fits (segments.map Segment.label))
    (hnodup : (segments.map Segment.label).Nodup) (lowered : f.instructions = segments.flatMap Segment.instructions) :
    ∃ g, build f = .ok g ∧ g.blocks = (segments.map (Segment.block f)).toArray := by
  obtain ⟨codes, hclean, hinstructions, hlabels, hblocks⟩ := Segment.exists_codes hfits f
  have laidOut : f.instructions = codes.flatMap BlockCode.instructions := lowered.trans hinstructions.symm
  have hcodes : codes ≠ [] := by
    rintro rfl
    exact hne (List.map_eq_nil_iff.mp hlabels.symm)
  obtain ⟨g, hg⟩ := (BlockCode.exists_build_iff laidOut).mpr ⟨hcodes, hclean, hlabels ▸ hnodup, fun c hc => by
    obtain ⟨s, hs, hblock⟩ := List.mem_map.mp (hblocks ▸ List.mem_map_of_mem hc)
    rw [hlabels, ← hblock]
    exact (hfits s hs).namesKnown⟩
  exact ⟨g, hg, hblocks ▸ BlockCode.blocks_eq_of_build laidOut hg⟩

end

/-- The graph has the segment's block under its label. -/
def Hosted (g : FlowGraph) (s : Segment) : Prop :=
  ∃ b block, g.blockOf? s.label = some b ∧ g.block? b = some block ∧ block.merge? = s.merge? ∧
    block.terminator? = some s.terminator

/-- A program with distinct labels has a graph, with its blocks and with its first one as the entry. -/
theorem build_body {f : Function} {body : Body} (distinct : body.labels.Nodup) (laidOut : body.LaidOut f) :
    ∃ g, build f = .ok g ∧ (∀ s ∈ body.lower none, Hosted g s) ∧ g.blockOf? body.first = some g.entry := by
  obtain ⟨first, rest, hperm, hfirst, hinstructions⟩ := laidOut
  have hlabels : ((first :: rest).map Segment.label).Perm body.labels := hperm.map Segment.label
  have hnodup : ((first :: rest).map Segment.label).Nodup := hlabels.nodup_iff.mpr distinct
  have hfits : ∀ s ∈ first :: rest, s.Fits ((first :: rest).map Segment.label) := fun s hs =>
    body.fits none (by simp) hlabels.symm.subset s (hperm.mem_iff.mp hs)
  obtain ⟨g, hbuild, hblocks⟩ := build_segments (by simp) hfits hnodup hinstructions
  have hfound : ∀ {i s}, (first :: rest)[i]? = some s → g.block? i = some (s.block f) := by
    intro i s hi
    rw [block?, hblocks, List.getElem?_toArray, List.getElem?_map, hi, Option.map_some]
  have hdistinct : (g.blocks.toList.map (·.label)).Nodup := by
    rw [hblocks, List.map_map]
    exact hnodup
  refine ⟨g, hbuild, fun s hs => ?_, ?_⟩
  · have hs := hperm.mem_iff.mpr hs
    obtain ⟨i, hi⟩ := List.mem_iff_getElem?.mp hs
    exact ⟨i, s.block f, (blockOf?_eq_some_iff hdistinct).mpr ⟨_, hfound hi, rfl⟩, hfound hi, merge?_block (hfits s hs),
      terminator?_block f s⟩
  · exact (blockOf?_eq_some_iff hdistinct).mpr ⟨_, hfound (i := 0) rfl, hfirst⟩

end Nested
end FlowTree
