import FlowTree.Function.Builder
import FlowTree.Proofs.Function.Allotment

/-!
Runs of builder calls. All that a call does to the naming is to resolve the names it is given, from the left
(`naming_perform`), so the naming after a run is the one after the names of all its calls.
-/

namespace FlowTree

namespace Builder

/-- A call that changes the builder. An instruction without a call of its own is added by `emit`. -/
inductive Call where
  | id (name : String)
  | moveTo (position : Position)
  | append (i : Instruction)
  | emit (op : Opcode) (result : String) (operands : List String)
  | label (name : String)
  | branch (target : String)
  | branchConditional (condition whenTrue whenFalse : String)
  | switch (selector default : String) (cases : List (Int × String))
  | selectionMerge (merge : String)
  | loopMerge (merge continueTarget : String)
  | line (file : String) (line column : Int)
  | setResult (name : String)
  deriving DecidableEq, Repr, Inhabited

/-- The names that the call is given, in the order in which it resolves them. -/
def Call.names : Call → List String
  | .id name => [name]
  | .moveTo _ => []
  | .append _ => []
  | .emit _ result operands => (if result = "" then [] else [result]) ++ operands
  | .label name => [name]
  | .branch target => [target]
  | .branchConditional condition whenTrue whenFalse => [condition, whenTrue, whenFalse]
  | .switch selector default cases => selector :: default :: cases.map (·.2)
  | .selectionMerge merge => [merge]
  | .loopMerge merge continueTarget => [merge, continueTarget]
  | .line file _ _ => [file]
  | .setResult name => [name]

/-- The builder after a call. -/
def perform (b : Builder) : Call → Builder
  | .id name => (b.id name).2
  | .moveTo position => b.moveTo position
  | .append i => b.append i
  | .emit op result operands => b.emit op result operands
  | .label name => (b.label name).2
  | .branch target => b.branch target
  | .branchConditional condition whenTrue whenFalse => b.branchConditional condition whenTrue whenFalse
  | .switch selector default cases => b.switch selector default cases
  | .selectionMerge merge => b.selectionMerge merge
  | .loopMerge merge continueTarget => b.loopMerge merge continueTarget
  | .line file line column => b.line file line column
  | .setResult name => b.setResult name

/-- The builder after calls. -/
def run (b : Builder) (calls : List Call) : Builder := calls.foldl perform b

theorem naming_caseOperands (b : Builder) (cases : List (Int × String)) :
    (b.caseOperands cases).2.naming = (b.naming.resolveAll (cases.map (·.2))).2 := by
  induction cases generalizing b with
  | nil => rfl
  | cons c cases ih => exact ih (b.id c.2).2

theorem naming_emit (b : Builder) (op : Opcode) (result : String) (operands : List String) :
    (b.emit op result operands).naming =
      (b.naming.resolveAll ((if result = "" then [] else [result]) ++ operands)).2 := by
  by_cases hresult : result = ""
  · simp [emit, hresult, append, ids]
  · simp [emit, hresult, append, ids, Builder.id, Naming.resolveAll]

/-- A call resolves its names and leaves the naming as it is otherwise. -/
theorem naming_perform (b : Builder) (c : Call) : (b.perform c).naming = (b.naming.resolveAll c.names).2 := by
  cases c with
  | emit op result operands => exact naming_emit b op result operands
  | branch target => exact naming_emit b .branch "" [target]
  | branchConditional condition whenTrue whenFalse =>
    exact naming_emit b .branchConditional "" [condition, whenTrue, whenFalse]
  | switch selector default cases => exact naming_caseOperands (b.ids [selector, default]).2 cases
  | id | moveTo | append | label | selectionMerge | loopMerge | line | setResult => rfl

theorem naming_run (b : Builder) (calls : List Call) :
    (b.run calls).naming = (b.naming.resolveAll (calls.flatMap Call.names)).2 := by
  induction calls generalizing b with
  | nil => rfl
  | cons c calls ih =>
    rw [List.flatMap_cons, Naming.resolveAll_append, ← naming_perform]
    exact ih (b.perform c)

theorem run_append (b : Builder) (before after : List Call) : b.run (before ++ after) = (b.run before).run after :=
  List.foldl_append

theorem naming_run_start (function : String) (calls : List Call) :
    ((start function).run calls).naming = Naming.after (calls.flatMap Call.names) :=
  naming_run (start function) calls

theorem fst_id (b : Builder) (name : String) : (b.id name).1 = (b.naming.resolve name).1 := rfl

theorem naming_id (b : Builder) (name : String) : (b.id name).2.naming = (b.naming.resolve name).2 := rfl

/-- The ids that a call gives its names are those that they have after any calls that follow. -/
theorem ids_kept (b : Builder) (call : Call) (later : List Call) :
    (b.ids call.names).1 = call.names.map fun name => ((b.run (call :: later)).id name).1 := by
  simp only [fst_id, naming_run, List.flatMap_cons]
  exact Naming.ids_resolveAll b.naming call.names _

theorem id?_run (function : String) {name : String} {calls : List Call} (h : name ∈ calls.flatMap Call.names) :
    ((start function).run calls).naming.table.id? (Naming.bare name) =
      some (((start function).run calls).id name).1 := by
  rw [fst_id, naming_run_start]
  exact Naming.id?_after h

/-- How the names that calls are given and their ids go together in the builder `b` after the calls. -/
structure Corresponds (function : String) (calls : List Call) (b : Builder) : Prop where
  /-- The ids of names and the names of ids undo each other. -/
  inverse : ∀ name id, b.naming.table.id? name = some id ↔ b.function.names.name? id = some name
  bound : ∀ name, (∃ id, b.naming.table.id? name = some id) ↔ name ∈ (calls.flatMap Call.names).map Naming.bare
  nameOf : ∀ name ∈ calls.flatMap Call.names, b.function.nameOf (b.id name).1 = Naming.bare name
  apart : ∀ name ∈ calls.flatMap Call.names, ∀ name' ∈ calls.flatMap Call.names,
    (b.id name).1 = (b.id name').1 ↔ Naming.bare name = Naming.bare name'
  /-- The ids that a call gives its names are those that the names still have at the end. -/
  kept : ∀ before call after, calls = before ++ call :: after →
    (((start function).run before).ids call.names).1 = call.names.map fun name => (b.id name).1
  /-- A numeral has its own number if that was free when the numeral was first used, and only then. -/
  numerals : ∀ before name after number, calls.flatMap Call.names = before ++ name :: after →
    Naming.bare name ∉ before.map Naming.bare → Text.IsNumeral (Naming.bare name) number → 0 < number →
    number < UInt32.size →
    ((b.id name).1 = UInt32.ofNat number ↔ ∀ other ∈ before, (b.id other).1 ≠ UInt32.ofNat number)

end Builder

/-- Names and ids correspond after any calls on a builder that are given fewer names than there are ids, also when the
counter has passed the greatest id. -/
theorem names_and_ids_correspond (function : String) (calls : List Builder.Call)
    (few : ((calls.flatMap Builder.Call.names).map Naming.bare).eraseDups.length < UInt32.size) :
    ((Builder.start function).run calls).Corresponds function calls := by
  have hnaming := Builder.naming_run_start function calls
  -- The table is one to one as long as there is a free id for each name.
  have honeToOne : ((Builder.start function).run calls).naming.table.OneToOne := by
    rw [hnaming]
    exact Naming.oneToOne_after few.le
  constructor
  case inverse => exact fun name id => honeToOne.id?_iff_name?
  case bound =>
    intro name
    rw [hnaming]
    exact Naming.exists_id?_after
  case nameOf => exact fun name hname => honeToOne.nameOf_eq (Builder.id?_run function hname)
  case apart =>
    intro name hname name' hname'
    constructor
    · intro hid
      rw [← honeToOne.nameOf_eq (Builder.id?_run function hname), ← honeToOne.nameOf_eq (Builder.id?_run function hname'),
        hid]
    · intro hbare
      have hsame := Builder.id?_run function hname
      rw [hbare, Builder.id?_run function hname'] at hsame
      exact (Option.some.inj hsame).symm
  case kept =>
    rintro before call after rfl
    rw [Builder.run_append]
    exact Builder.ids_kept _ call after
  case numerals =>
    intro before name after number hused hfirst hnumeral hpos hsize
    simp only [Builder.fst_id, hnaming, hused]
    exact Naming.resolve_numeral_after (by rw [← hused]; exact few) hfirst hnumeral hpos hsize

/-- Calls of which the first takes the greatest id. The names include two numerals of one number, and one of a number that
was given to a name before. -/
def wrappingCalls : List Builder.Call :=
  [.label "%4294967295", .emit .phi "x" ["%7", "007"], .switch "0" "y" [(5, "8"), (6, "%x")], .branch "%4294967295"]

theorem names_and_ids_correspond_wrapping :
    ((wrappingCalls.flatMap Builder.Call.names).map Naming.bare).eraseDups.length < UInt32.size ∧
    ((Builder.start "main").run wrappingCalls).naming.table.entries =
      [("4294967295", 4294967295), ("x", 0), ("7", 7), ("007", 8), ("0", 9), ("y", 10), ("8", 11)] ∧
    ((Builder.start "main").run wrappingCalls).Corresponds "main" wrappingCalls := by
  have hfew : ((wrappingCalls.flatMap Builder.Call.names).map Naming.bare).eraseDups.length < UInt32.size := by
    decide +kernel
  exact ⟨hfew, by decide +kernel, names_and_ids_correspond "main" wrappingCalls hfew⟩

end FlowTree
