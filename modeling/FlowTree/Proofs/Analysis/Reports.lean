import FlowTree.Analysis
import FlowTree.Proofs.FlowGraph.Grammar
import FlowTree.Proofs.FlowGraph.Reach
import FlowTree.Proofs.Tree.Built

/-!
What is reported of functions. A function without a tree has one error, which says why its graph could not be built or why
its control flow is rejected, and a function with a tree has none; the blocks that no path reaches have a warning each. So
the errors of a module count its functions without a tree.
-/

namespace FlowTree

/-- The codes of rejections. -/
def rejectionCodes : List Code :=
  [Code.invalidTerminationAfterMerge, Code.switchCaseMultipleTargets, Code.switchCasesFormLoop,
  Code.unstructuredControlFlow]

theorem Rejection.level_code (r : Rejection) : r.diagnostic.level = .error ∧ r.diagnostic.code ∈ rejectionCodes := by
  unfold Rejection.diagnostic
  split <;> simp [rejectionCodes, Diagnostic.invalidTerminationAfterMerge, Diagnostic.switchCaseMultipleTargets,
    Diagnostic.switchCasesFormLoop, Diagnostic.unstructuredControlFlow]

/-- No code of an error falls into the range of warnings or begins like one. -/
theorem Code.not_isWarning : ∀ code ∈ Code.emptyFunction :: FlowGraph.flawCodes ++ rejectionCodes,
    code.isWarning = false := by
  decide +kernel

theorem Diagnostic.not_isWarning {d : Diagnostic} (level : d.level = .error)
    (code : d.code ∈ Code.emptyFunction :: FlowGraph.flawCodes ++ rejectionCodes) : d.isWarning = false := by
  simp [isWarning, level, Code.not_isWarning d.code code]

/-- What is reported if a function has no tree: what is wrong with its graph, or with its control flow. -/
inductive Fails (f : Function) : Diagnostic → Prop
  | graph {d : Diagnostic} (refused : FlowGraph.build f = .error (.rejected d)) : Fails f d
  | tree {g : FlowGraph} {r : Rejection} (accepted : FlowGraph.build f = .ok g)
    (rejected : (Tree.build g (.none g)).1 = .error (.rejected r)) : Fails f r.diagnostic

theorem Fails.not_isWarning {f : Function} {d : Diagnostic} (h : Fails f d) : d.isWarning = false := by
  cases h with
  | graph refused =>
    rcases FlowGraph.build_flaw refused with rfl | hflaw
    · exact Diagnostic.not_isWarning rfl (by simp [Diagnostic.emptyFunction])
    · exact Diagnostic.not_isWarning hflaw.level_code.1 (by simp [hflaw.level_code.2])
  | @tree g r _ _ => exact Diagnostic.not_isWarning r.level_code.1 (by simp [r.level_code.2])

/-- The warnings are those about the blocks that no path from the entry leads to, one for each, in program order. -/
def WarnsOf (g : FlowGraph) (warnings : List Diagnostic) : Prop :=
  ∃ unreached : List BlockId, unreached.Pairwise (· < ·) ∧ (∀ b, b ∈ unreached ↔ b < g.size ∧ ¬g.Reached b) ∧
    List.Forall₂ (fun b d => ∃ block, g.block? b = some block ∧ d = .unreachableBlock block.name block.position ∧
      d.code = "W0001") unreached warnings

theorem WarnsOf.isWarning {g : FlowGraph} {warnings : List Diagnostic} (h : WarnsOf g warnings) :
    ∀ d ∈ warnings, d.isWarning = true := by
  obtain ⟨unreached, -, -, hall⟩ := h
  intro d hd
  obtain ⟨b, -, block, -, rfl, -⟩ := exists_of_mem_right hall hd
  rfl

theorem warnsOf_unreachable {f : Function} {g : FlowGraph} (h : FlowGraph.build f = .ok g) :
    WarnsOf g ((g.unreachable.filterMap g.block?).map fun b => .unreachableBlock b.name b.position) := by
  refine ⟨g.unreachable, List.pairwise_lt_range.sublist List.filter_sublist, fun b => ?_, ?_⟩
  · rw [← FlowGraph.reaches_iff_reached h]
    simp [FlowGraph.unreachable]
  · have hfound : ∀ b ∈ g.unreachable, ∃ block, g.block? b = some block := fun b hb =>
      FlowGraph.block?_eq_some_of_lt (by simpa using (List.mem_filter.mp hb).1)
    generalize g.unreachable = unreached at hfound
    induction unreached with
    | nil => exact .nil
    | cons b unreached ih =>
      obtain ⟨⟨block, hblock⟩, hlater⟩ := List.forall_mem_cons.mp hfound
      rw [List.filterMap_cons_some hblock]
      exact .cons ⟨block, hblock, rfl, rfl⟩ (ih hlater)

namespace Analysis

/-- The three ends that an analysis can come to. -/
theorem run_cases (f : Function) :
    (∃ d, FlowGraph.build f = .error (.rejected d) ∧ run f = ⟨f, .noGraph (.graph d)⟩) ∨
    (∃ g r, FlowGraph.build f = .ok g ∧ (Tree.build g (.none g)).1 = .error (.rejected r) ∧
      run f = ⟨f, .noTree g (.structuring r)⟩) ∨
    ∃ g t, FlowGraph.build f = .ok g ∧ (Tree.build g (.none g)).1 = .ok t ∧ run f = ⟨f, .structured g t⟩ := by
  unfold run
  cases hbuild : FlowGraph.build f with
  | error halt =>
    obtain ⟨d, rfl, -⟩ := FlowGraph.build_error hbuild
    exact Or.inl ⟨d, rfl, rfl⟩
  | ok g =>
    right
    cases htree : (Tree.build g (.none g)).1 with
    | ok t => exact Or.inr ⟨g, t, rfl, htree, by simp only [htree]⟩
    | error halt =>
      rcases Tree.build_error (FlowGraph.build_linked hbuild) htree with ⟨r, rfl⟩ | ⟨b, place, hplace⟩
      · exact Or.inl ⟨g, r, rfl, htree, by simp only [htree, Failure.ofHalt]⟩
      · rw [Tree.place?_none] at hplace
        cases hplace

/-- The diagnostics of an analysis are the errors and then the warnings: one error if there is no tree, which says why, and
the warnings of the graph if there is one. -/
structure Reports (a : Analysis) (errors warnings : List Diagnostic) : Prop where
  all : a.diagnostics = errors ++ warnings
  noTree : a.outcome.tree? = none → ∃ d, errors = [d] ∧ d.isWarning = false ∧ Fails a.function d
  tree : ∀ t, a.outcome.tree? = some t → errors = []
  noGraph : a.outcome.graph? = none → warnings = []
  graph : ∀ g, a.outcome.graph? = some g → FlowGraph.build a.function = .ok g ∧ WarnsOf g warnings

theorem exists_reports_run (f : Function) : ∃ errors warnings, (run f).Reports errors warnings := by
  rcases run_cases f with ⟨d, hbuild, hrun⟩ | ⟨g, r, hbuild, htree, hrun⟩ | ⟨g, t, hbuild, htree, hrun⟩ <;> rw [hrun]
  · have hfails : Fails f d := .graph hbuild
    exact ⟨[d], [], rfl, fun _ => ⟨d, rfl, hfails.not_isWarning, hfails⟩, fun _ h => (nomatch h), fun _ => rfl,
      fun _ h => (nomatch h)⟩
  · have hfails : Fails f r.diagnostic := .tree hbuild htree
    refine ⟨[r.diagnostic], _, rfl, fun _ => ⟨_, rfl, hfails.not_isWarning, hfails⟩, fun _ h => (nomatch h),
      fun h => (nomatch h), ?_⟩
    rintro _ ⟨⟩
    exact ⟨hbuild, warnsOf_unreachable hbuild⟩
  · refine ⟨[], _, rfl, fun h => (nomatch h), fun _ _ => rfl, fun h => (nomatch h), ?_⟩
    rintro _ ⟨⟩
    exact ⟨hbuild, warnsOf_unreachable hbuild⟩

/-! ### Counting -/

section
variable {a : Analysis} {errors warnings : List Diagnostic}

theorem Reports.isWarning (h : a.Reports errors warnings) : ∀ d ∈ warnings, d.isWarning = true := by
  cases hgraph : a.outcome.graph? with
  | none => simp [h.noGraph hgraph]
  | some g => exact (h.graph g hgraph).2.isWarning

theorem Reports.countP (h : a.Reports errors warnings) :
    a.diagnostics.countP (!·.isWarning) = if a.outcome.tree?.isNone then 1 else 0 := by
  have hwarnings : warnings.countP (!·.isWarning) = 0 :=
    List.countP_eq_zero.mpr fun d hd => by simp [h.isWarning d hd]
  rw [h.all, List.countP_append, hwarnings]
  cases htree : a.outcome.tree? with
  | none =>
    obtain ⟨d, rfl, hd, -⟩ := h.noTree htree
    simp [hd]
  | some t => simp [h.tree t htree]

end

/-- Failing and having no tree are the same. -/
theorem failed_eq (a : Analysis) : a.failed = a.outcome.tree?.isNone := by
  unfold failed
  cases a.outcome <;> rfl

end Analysis

/-- The errors among the diagnostics of a module are as many as its functions without a tree. There are any if and only if
a function failed, and if and only if the diagnostics are said to have errors. Function by function the diagnostics are
the one error of a function without a tree, and then a warning for each block without a path from the entry, in program
order. -/
theorem failures_reported (m : Module) :
    let results := Analysis.all m
    let errors := (diagnosticsOf results).countP (!·.isWarning)
    results.map (·.function) = m.functions ∧
    errors = results.countP (·.outcome.tree?.isNone) ∧
    (anyFailed results = true ↔ 0 < errors) ∧
    (hasErrors (diagnosticsOf results) = true ↔ 0 < errors) ∧
    ∀ a ∈ results, ∃ errors warnings, a.Reports errors warnings := by
  have hreports : ∀ a ∈ Analysis.all m, ∃ errors warnings, a.Reports errors warnings := fun a ha => by
    obtain ⟨f, -, rfl⟩ := List.mem_map.mp ha
    exact Analysis.exists_reports_run f
  have hcount : (diagnosticsOf (Analysis.all m)).countP (!·.isWarning) =
      (Analysis.all m).countP (·.outcome.tree?.isNone) := by
    unfold diagnosticsOf
    generalize Analysis.all m = results at hreports
    induction results with
    | nil => rfl
    | cons a results ih =>
      obtain ⟨⟨errors, warnings, hfirst⟩, hlater⟩ := List.forall_mem_cons.mp hreports
      rw [List.flatMap_cons, List.countP_append, hfirst.countP, ih hlater, List.countP_cons, Nat.add_comm]
  refine ⟨?_, hcount, ?_, ?_, hreports⟩
  · rw [Analysis.all, List.map_map]
    refine List.map_id'' (fun f => ?_) m.functions
    rcases Analysis.run_cases f with ⟨_, -, h⟩ | ⟨_, _, -, -, h⟩ | ⟨_, _, -, -, h⟩ <;> simp [h]
  · simp only [hcount, List.countP_pos_iff, anyFailed, List.any_eq_true, Analysis.failed_eq]
  · simp only [List.countP_pos_iff, hasErrors, List.any_eq_true]

end FlowTree
