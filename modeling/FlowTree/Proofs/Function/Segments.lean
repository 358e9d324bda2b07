import FlowTree.Proofs.Assembly.Grammar
import FlowTree.Proofs.Function.Statements

/-!
The functions of a program. A function opens at every `OpFunction` and holds what follows up to the next `OpFunction` or
`OpFunctionEnd`, parameters apart. The reports are one for every function that no `OpFunctionEnd` closes, one for every
`OpFunctionEnd` that closes none, one for every unknown mnemonic where it first comes into a function, and one for every
integer in a function that does not fit.
-/

namespace FlowTree

open Assembly

namespace Assembly.Statement

def isFunction (s : Statement) : Bool := s.opcode.text = "OpFunction"

def isParameter (s : Statement) : Bool := s.opcode.text = "OpFunctionParameter"

def isFunctionEnd (s : Statement) : Bool := s.opcode.text = "OpFunctionEnd"

/-- The statement opens a function or closes one. -/
def isBoundary (s : Statement) : Bool := s.isFunction || s.isFunctionEnd

end Assembly.Statement

/-- What a function holds that is open where the statements start. -/
def bodyOf (ss : List Statement) : List Statement := (ss.takeWhile (!·.isBoundary)).filter (!·.isParameter)

/-- A function that is open where the statements start is closed by them. -/
def closes (ss : List Statement) : Bool := (ss.find? Statement.isBoundary).any Statement.isFunctionEnd

/-- A function of a program: the statement that opens it, what it holds, and whether it is closed. -/
structure Frame where
  opener : Statement
  body : List Statement
  isClosed : Bool

/-- The name of the function: that of its result, or `main`. -/
def Frame.name (f : Frame) : String := f.opener.result?.elim "main" Word.name

/-- The functions of a program. -/
def frames : List Statement → List Frame
  | [] => []
  | s :: rest => if s.isFunction then ⟨s, bodyOf rest, closes rest⟩ :: frames rest else frames rest

/-- What the functions of a program hold. -/
def framed (ss : List Statement) : List Statement := (frames ss).flatMap Frame.body

/-- One report for every unknown mnemonic of the statements, at the first one that has it, apart from those that were warned
about before. -/
def unknownOpcodes (file : String) (warned : List String) (ss : List Statement) : List Diagnostic :=
  (((ss.map (·.opcode.text)).filter (isNewUnknown warned)).eraseDups).filterMap fun m =>
    (ss.find? (·.opcode.text = m)).map fun s => .unknownOpcode m (s.start.inFile file)

/-- The function of a frame: an instruction for each statement that the frame holds. -/
structure Frame.Lowers (file : String) (frame : Frame) (f : Function) : Prop where
  name : f.name = frame.name
  result : frame.opener.ResultIs f.names f.result
  instructions : List.Forall₂ (Statement.Lowers file f.names) frame.body f.instructions

section
variable {s : Statement} {ss : List Statement}

theorem bodyOf_cons : bodyOf (s :: ss) =
    if s.isBoundary then [] else if s.isParameter then bodyOf ss else s :: bodyOf ss := by
  unfold bodyOf
  by_cases hboundary : s.isBoundary = true
  · simp [hboundary]
  · by_cases hparameter : s.isParameter = true <;> simp [hboundary, hparameter]

theorem body_sublist {frame : Frame} (h : frame ∈ frames ss) : frame.body.Sublist ss := by
  induction ss with
  | nil => cases h
  | cons s ss ih =>
    rw [frames] at h
    split at h
    · rcases List.mem_cons.mp h with rfl | h
      · exact (List.filter_sublist.trans (List.takeWhile_sublist _)).cons s
      · exact (ih h).cons s
    · exact (ih h).cons s

end

/-- A mnemonic is reported once, and then no more. -/
theorem unknownOpcodes_cons (file : String) (warned : List String) (s : Statement) (ss : List Statement) :
    unknownOpcodes file warned (s :: ss) =
      (if isNewUnknown warned s.opcode.text then [.unknownOpcode s.opcode.text (s.start.inFile file)] else []) ++
        unknownOpcodes file (if isNewUnknown warned s.opcode.text then s.opcode.text :: warned else warned) ss := by
  -- The first statement counts for its own mnemonic only.
  have hskip : ∀ ms : List String, (∀ m ∈ ms, m ≠ s.opcode.text) →
      ms.filterMap (fun m => ((s :: ss).find? (·.opcode.text = m)).map fun s =>
        Diagnostic.unknownOpcode m (s.start.inFile file)) =
      ms.filterMap fun m => (ss.find? (·.opcode.text = m)).map fun s => .unknownOpcode m (s.start.inFile file) := by
    intro ms hms
    refine List.filterMap_congr fun m hm => ?_
    rw [List.find?_cons_of_neg (by simpa using (hms m hm).symm)]
  unfold unknownOpcodes
  rw [List.map_cons]
  by_cases hnew : isNewUnknown warned s.opcode.text = true
  · have hfilter : ((ss.map (·.opcode.text)).filter (isNewUnknown warned)).filter (fun m => !m == s.opcode.text) =
        (ss.map (·.opcode.text)).filter (isNewUnknown (s.opcode.text :: warned)) := by
      rw [List.filter_filter]
      refine List.filter_congr fun m _ => ?_
      unfold isNewUnknown
      rw [List.contains_cons]
      cases decide (Opcode.ofMnemonic m = .unknown) <;> cases m == s.opcode.text <;> simp
    rw [List.filter_cons_of_pos hnew, List.eraseDups_cons, hfilter, List.filterMap_cons_some (b := .unknownOpcode
      s.opcode.text (s.start.inFile file)) (by simp), hskip, if_pos hnew, if_pos hnew]
    · rfl
    · intro m hm heq
      have := (List.mem_filter.mp (List.mem_eraseDups.mp hm)).2
      simp [isNewUnknown, heq] at this
  · rw [List.filter_cons_of_neg hnew, hskip, if_neg hnew, if_neg hnew]
    · rfl
    · rintro m hm rfl
      exact hnew (List.mem_filter.mp (List.mem_eraseDups.mp hm)).2

theorem invalidLiterals_cons (file : String) (s : Statement) (ss : List Statement) :
    invalidLiterals file (s :: ss) = invalidLiterals file [s] ++ invalidLiterals file ss := by
  simp [invalidLiterals]

/-! ### Programs with frames -/

/-- The builder of a function that a statement opens. -/
def openBuilder (s : Statement) : Builder :=
  match s.result? with
  | some w => (Builder.start w.name).setResult w.name
  | none => Builder.start "main"

namespace Lowering

variable {s : Statement} {ss : List Statement} {l : Lowering}

/-- What a statement does to a module in the making. -/
theorem step_cases (l : Lowering) (s : Statement) :
    (s.isFunction = true ∧ s.isFunctionEnd = false ∧ l.step s = l.abandonOpen.begin s) ∨
    (s.isFunction = false ∧ s.isFunctionEnd = true ∧
      ((∃ b start, l.open? = some (b, start) ∧ l.step s = l.finish b) ∨
       (l.open? = none ∧
        l.step s = l.report (.unreadableText "OpFunctionEnd outside a function" (s.start.inFile l.file))))) ∨
    (s.isFunction = false ∧ s.isFunctionEnd = false ∧
      ((s.isParameter = true ∧ l.step s = l) ∨
       (s.isParameter = false ∧
        ((∃ b start, l.open? = some (b, start) ∧ l.step s = l.instruction b start s) ∨
         (l.open? = none ∧ l.step s = l))))) := by
  have hfunction : s.isFunction = decide (Opcode.ofMnemonic s.opcode.text = .function) := by
    rw [Statement.isFunction, decide_eq_decide]
    exact (Opcode.ofMnemonic_eq (e := (.function, 54, "OpFunction")) (by decide)).symm
  have hend : s.isFunctionEnd = decide (Opcode.ofMnemonic s.opcode.text = .functionEnd) := by
    rw [Statement.isFunctionEnd, decide_eq_decide]
    exact (Opcode.ofMnemonic_eq (e := (.functionEnd, 56, "OpFunctionEnd")) (by decide)).symm
  have hparameter : s.isParameter = decide (Opcode.ofMnemonic s.opcode.text = .functionParameter) := by
    rw [Statement.isParameter, decide_eq_decide]
    exact (Opcode.ofMnemonic_eq (e := (.functionParameter, 55, "OpFunctionParameter")) (by decide)).symm
  unfold step
  split
  · rename_i hop
    exact Or.inl ⟨by simp [hfunction, hop], by simp [hend, hop], rfl⟩
  · rename_i hop
    exact Or.inr (Or.inr ⟨by simp [hfunction, hop], by simp [hend, hop], Or.inl ⟨by simp [hparameter, hop], rfl⟩⟩)
  · rename_i hop
    refine Or.inr (Or.inl ⟨by simp [hfunction, hop], by simp [hend, hop], ?_⟩)
    cases l.open? with
    | some o => exact Or.inl ⟨o.1, o.2, rfl, rfl⟩
    | none => exact Or.inr ⟨rfl, rfl⟩
  · rename_i hnotFunction hnotParameter hnotEnd
    refine Or.inr (Or.inr ⟨by simpa [hfunction] using hnotFunction, by simpa [hend] using hnotEnd,
      Or.inr ⟨by simpa [hparameter] using hnotParameter, ?_⟩⟩)
    cases l.open? with
    | some o => exact Or.inl ⟨o.1, o.2, rfl, rfl⟩
    | none => exact Or.inr ⟨rfl, rfl⟩

theorem begin_eq (l : Lowering) (s : Statement) :
    l.begin s = { l with open? := some (openBuilder s, s.start.inFile l.file) } := rfl

theorem file_abandonOpen (l : Lowering) : l.abandonOpen.file = l.file := by
  unfold abandonOpen
  cases l.open? <;> rfl

theorem functions_abandonOpen (l : Lowering) :
    l.abandonOpen.functions = l.functions ++ (l.open?.map fun o => o.1.function).toList := by
  unfold abandonOpen
  cases l.open? <;> simp [abandon, report, finish]

/-- The functions of the frames come after the one that is open and those that are finished. -/
theorem functions_foldl_step (hlines : ∀ s ∈ ss, 0 < s.start.line) : (ss.foldl step l).abandonOpen.functions =
    l.functions ++ (l.open?.map fun o => (o.1.addStatements l.file (bodyOf ss)).function).toList ++
      (frames ss).map fun f => ((openBuilder f.opener).addStatements l.file f.body).function := by
  induction ss generalizing l with
  | nil => simp [functions_abandonOpen, frames, bodyOf, Builder.addStatements]
  | cons s ss ih =>
    obtain ⟨hline, hlines⟩ := List.forall_mem_cons.mp hlines
    rw [List.foldl_cons, ih hlines]
    have hnone : ∀ b : Builder, b.addStatements l.file [] = b := fun b => rfl
    rcases step_cases l s with ⟨hfunction, hend, hstep⟩ | ⟨hfunction, hend, ⟨b, start, hopen, hstep⟩ | ⟨hopen, hstep⟩⟩ |
        ⟨hfunction, hend, ⟨hparameter, hstep⟩ | ⟨hparameter, ⟨b, start, hopen, hstep⟩ | ⟨hopen, hstep⟩⟩⟩
    · rw [hstep, begin_eq]
      simp [functions_abandonOpen, file_abandonOpen, frames, bodyOf_cons, Statement.isBoundary, hfunction, hnone]
    · simp [hstep, finish, frames, bodyOf_cons, Statement.isBoundary, hfunction, hend, hopen, hnone]
    · simp [hstep, report, frames, hfunction, hopen]
    · simp [hstep, frames, bodyOf_cons, Statement.isBoundary, hfunction, hend, hparameter]
    · simp [hstep, instruction_eq l b start hline, withStatement, frames, bodyOf_cons, Statement.isBoundary, hfunction,
        hend, hparameter, hopen, Builder.addStatements]
    · simp [hstep, frames, hfunction, hopen]

/-- The statements that come into functions. -/
def lowered (isOpen : Bool) (ss : List Statement) : List Statement := (if isOpen then bodyOf ss else []) ++ framed ss

section
variable {file : String} {before? : Option Statement} {open? : Option (Builder × Position)}

end

/-- Every statement comes into the one function. -/
theorem foldl_bodyStep (hlines : ∀ s ∈ ss, 0 < s.start.line) {b : Builder} {start : Position}
    (hopen : l.open? = some (b, start)) :
    (ss.foldl bodyStep l).functions = l.functions ∧
    (ss.foldl bodyStep l).open? = some (b.addStatements l.file ss, start) ∧
    ∀ d, (ss.foldl bodyStep l).diagnostics.count d = l.diagnostics.count d +
      (unknownOpcodes l.file l.warned ss).count d + (invalidLiterals l.file ss).count d := by
  induction ss generalizing l b with
  | nil => exact ⟨rfl, hopen, fun d => rfl⟩
  | cons s ss ih =>
    obtain ⟨hline, hlines⟩ := List.forall_mem_cons.mp hlines
    have hstep : l.bodyStep s = l.instruction b start s := by rw [bodyStep, hopen]
    rw [List.foldl_cons, hstep, instruction_eq l b start hline]
    obtain ⟨hfunctions, hlater, hcount⟩ := ih (l := l.withStatement b start s) hlines rfl
    refine ⟨hfunctions, hlater, fun d => ?_⟩
    rw [hcount, unknownOpcodes_cons, invalidLiterals_cons l.file s ss]
    simp only [withStatement, List.count_append]
    omega

end Lowering

/-- The module of a program without frames is one function with all of its statements. -/
theorem lower_of_not_framed (file : String) {p : Program} (hlines : ∀ s ∈ p.statements, 0 < s.start.line)
    (hframed : ∀ s ∈ p.statements, s.opcode.text ≠ "OpFunction") :
    (Module.lower file p).1 = ⟨file, [((Builder.start "main").addStatements file p.statements).function]⟩ ∧
      ∀ d, (Module.lower file p).2.count d =
        (unknownOpcodes file [] p.statements).count d + (invalidLiterals file p.statements).count d := by
  obtain ⟨hfunctions, hopen, hcount⟩ := Lowering.foldl_bodyStep
    (l := { file, open? := some (Builder.start "main", {}) }) hlines rfl
  have hplain : p.isFramed = false := by simpa [Program.isFramed] using hframed
  unfold Module.lower
  simp only [hplain, Bool.false_eq_true, if_false, hopen]
  refine ⟨by simp [Lowering.finish, hfunctions], fun d => ?_⟩
  simpa [Lowering.finish] using hcount d

theorem resultIs_openBuilder (s : Statement) :
    (openBuilder s).instructions = [] ∧ s.ResultIs (openBuilder s).naming.table (openBuilder s).result := by
  unfold openBuilder Statement.ResultIs
  cases s.result? with
  | some w => exact ⟨rfl, Naming.id?_resolve {} w.name⟩
  | none => exact ⟨rfl, rfl⟩

/-- Every function of a module is built from statements of the program, in their order. -/
theorem exists_builder_of_lower {file : String} {p : Program} (hlines : ∀ s ∈ p.statements, 0 < s.start.line) {f : Function}
    (hf : f ∈ (Module.lower file p).1.functions) : ∃ b ss, (b = Builder.start "main" ∨ ∃ opener, b = openBuilder opener) ∧
      ss.Sublist p.statements ∧ f = (b.addStatements file ss).function := by
  by_cases hframed : p.isFramed = true
  · unfold Module.lower at hf
    simp only [hframed, if_true] at hf
    rw [Lowering.functions_foldl_step (l := { file }) hlines] at hf
    obtain ⟨frame, hframe, rfl⟩ := List.mem_map.mp (by simpa using hf)
    exact ⟨_, frame.body, Or.inr ⟨frame.opener, rfl⟩, body_sublist hframe, rfl⟩
  · have hplain : ∀ s ∈ p.statements, s.opcode.text ≠ "OpFunction" := by simpa [Program.isFramed] using hframed
    rw [(lower_of_not_framed file hlines hplain).1, List.mem_singleton] at hf
    exact ⟨_, p.statements, Or.inl rfl, .refl _, hf⟩

end FlowTree
