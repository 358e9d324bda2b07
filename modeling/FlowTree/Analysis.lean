import FlowTree.Diagnostic.Report
import FlowTree.FlowGraph.Build
import FlowTree.Function.Lowering
import FlowTree.Tree.Printer
import FlowTree.Tree.Structuring

/-!
The analysis of functions and modules: the control-flow graph of each function and its structure tree,
or what stands in the way of them, with diagnostics.
-/

namespace FlowTree

/-- Why a function has no tree. -/
inductive Failure where
  /-- The graph could not be built. -/
  | graph (d : Diagnostic)
  /-- The control flow is not structured. -/
  | structuring (r : Rejection)
  /-- Anything else, in words. -/
  | other (message : String)
  deriving DecidableEq, Repr

namespace Failure

/-- The failure on one line. -/
def message : Failure → String
  | .graph d => d.text
  | .structuring r => r.message
  | .other message => message

def diagnostic : Failure → Diagnostic
  | .graph d => d
  | .structuring r => r.diagnostic
  | .other message => { code := "", message }

/-- Why structuring stopped. -/
def ofHalt : Halt → Failure
  | .rejected r => .structuring r
  | .fault f => .other f.message

end Failure

/-- How far the analysis of a function came. -/
inductive Outcome where
  | noGraph (f : Failure)
  | noTree (g : FlowGraph) (f : Failure)
  | structured (g : FlowGraph) (t : Tree)

namespace Outcome

def graph? : Outcome → Option FlowGraph
  | .noGraph _ => none
  | .noTree g _ => some g
  | .structured g _ => some g

def tree? : Outcome → Option Tree
  | .structured _ t => some t
  | _ => none

def failure? : Outcome → Option Failure
  | .noGraph f => some f
  | .noTree _ f => some f
  | .structured _ _ => none

end Outcome

/-- A function and how far its analysis came. -/
structure Analysis where
  function : Function
  outcome : Outcome

namespace Analysis

/-- Build the graph of a function and structure it. -/
def run (f : Function) : Analysis :=
  match FlowGraph.build f with
  | .error halt => ⟨f, .noGraph (.graph halt)⟩
  | .ok g =>
    match (Tree.build g (.none g)).1 with
    | .error halt => ⟨f, .noTree g (.ofHalt halt)⟩
    | .ok t => ⟨f, .structured g t⟩

/-- The failure if there is one, and a warning for each block that no path from the entry reaches. -/
def diagnostics (a : Analysis) : List Diagnostic :=
  (a.outcome.failure?.map Failure.diagnostic).toList ++
    match a.outcome.graph? with
    | none => []
    | some g => (g.unreachable.filterMap g.block?).map fun b => .unreachableBlock b.name b.position

/-- The function has no tree. -/
def failed (a : Analysis) : Bool := a.outcome.failure?.isSome

/-- The analyses of a module's functions, in order. -/
def all (m : Module) : List Analysis := m.functions.map run

/-- The outlines of the trees, under the names of their functions when there are several. -/
def outlines (analyses : List Analysis) (options : Region.OutlineOptions) : String :=
  String.join (analyses.map fun a =>
    match a.outcome.tree? with
    | none => ""
    | some t =>
      (if 1 < analyses.length then "; function " ++ a.function.name ++ "\n" else "") ++ t.outline options)

end Analysis

/-- Whether one of the functions failed. -/
def anyFailed (analyses : List Analysis) : Bool := analyses.any Analysis.failed

/-- The diagnostics of all analyses, in order. -/
def diagnosticsOf (analyses : List Analysis) : List Diagnostic := analyses.flatMap Analysis.diagnostics

/-- A source text, read and analysed as far as it goes. -/
structure Reading where
  file : String
  source : Text
  module? : Option Module
  analyses : List Analysis
  diagnostics : List Diagnostic

/-- Read and analyse a source text. -/
def Reading.ofText (file : String) (source : Text) : Reading :=
  let (module?, diagnostics) := Module.ofText file source
  let analyses := (module?.map Analysis.all).getD []
  ⟨file, source, module?, analyses, diagnostics ++ diagnosticsOf analyses⟩

/-- The report of what a reading found; nothing when it found nothing. -/
def Reading.report (r : Reading) (color : Bool) : Text :=
  Reporter.formatAll ⟨r.file, r.source, color⟩ r.diagnostics

end FlowTree
