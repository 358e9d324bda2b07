import FlowTree.Diagnostic.Basic
import FlowTree.Tree.Basic

/-!
Why structuring stops. A rejection says that the control flow cannot be structured and points at the
block where that shows. A fault would say that structuring itself went wrong.
-/

namespace FlowTree

/-- In what way control flow is not structured. -/
inductive RejectionKind where
  /-- A selection merge stands before a terminator that is neither a conditional branch nor a switch. -/
  | invalidTermination
  /-- A switch case reaches more than one other case. -/
  | multipleCases
  /-- Switch cases fall into each other in a circle. -/
  | caseLoop
  /-- The merge instructions do not describe the control flow. -/
  | unstructured
  /-- A number that names no kind of rejection. -/
  | other (code : Int)
  deriving DecidableEq, Repr, Inhabited

namespace RejectionKind

/-- The number of a kind. -/
def code : RejectionKind → Int
  | .invalidTermination => 1
  | .multipleCases => 2
  | .caseLoop => 3
  | .unstructured => 4
  | .other code => code

/-- The kind with the given number. -/
def ofCode (code : Int) : RejectionKind :=
  if code = 1 then .invalidTermination
  else if code = 2 then .multipleCases
  else if code = 3 then .caseLoop
  else if code = 4 then .unstructured
  else .other code

def name : RejectionKind → String
  | .invalidTermination => "InvalidTerminationInstructionFollowingMergeInstruction"
  | .multipleCases => "SwitchCaseBranchesToMultipleCases"
  | .caseLoop => "SwitchCasesFormALoop"
  | .unstructured => "UnstructuredControlFlow"
  | .other code => "ErrorKind(" ++ toString code ++ ")"

end RejectionKind

/-- Control flow that cannot be structured, with the block where that shows and its instructions. -/
structure Rejection where
  kind : RejectionKind
  block : BlockId
  blockName : String
  merge? : Option Instruction := none
  terminator? : Option Instruction := none
  /-- The names of the other blocks involved. -/
  targets : List String := []
  detail : String := ""
  deriving DecidableEq, Repr, Inhabited

namespace Rejection

/-- The rejection on one line. -/
def message (r : Rejection) : String :=
  r.kind.name ++ " at %" ++ r.blockName ++
    (if r.targets.isEmpty then "" else " (%" ++ ", %".intercalate r.targets ++ ")") ++
    (if r.detail = "" then "" else ": " ++ r.detail)

/-- The place to point at: the terminator's, or else the merge instruction's. -/
def position (r : Rejection) : Position :=
  (([r.terminator?, r.merge?].filterMap id).map (·.position) |>.find? Position.isValid).getD {}

def diagnostic (r : Rejection) : Diagnostic :=
  match r.kind with
  | .invalidTermination =>
    .invalidTerminationAfterMerge ((r.terminator?.map (·.name)).getD "") r.position
  | .multipleCases => .switchCaseMultipleTargets r.blockName r.targets r.position
  | .caseLoop => .switchCasesFormLoop r.blockName r.position
  | _ => .unstructuredControlFlow r.blockName r.detail r.position

/-- The rejection of the given kind at a block of the graph. -/
def atBlock (g : FlowGraph) (kind : RejectionKind) (b : BlockId) (detail : String)
    (targets : List BlockId) : Rejection where
  kind
  block := b
  blockName := g.blockName b
  merge? := (g.block? b).bind (·.merge?)
  terminator? := (g.block? b).bind (·.terminator?)
  targets := targets.map g.blockName
  detail

end Rejection

/-- A broken promise of the graph or of structuring itself. -/
inductive Fault where
  /-- A label that building the graph should have refused. -/
  | noBlock (label : Id)
  /-- Children that do not fit the kind of their node. -/
  | misshapen (kind : Kind) (why : String)
  /-- A node that is in two others. -/
  | secondParent (node : NodeId) (parent : NodeId)
  /-- A block that has a place already. -/
  | alreadyPlaced (block : String) (place : Place)
  /-- Loose ends at the root. -/
  | undrained (count : Nat)
  /-- More blocks to visit than there are. -/
  | outOfBlocks
  /-- A number beyond the end of the table that it is looked up in. -/
  | outOfRange (index size : Nat)
  deriving DecidableEq, Repr

/-- How a fault reads. -/
def Fault.message : Fault → String
  | .noBlock label => "structure: label " ++ toString label.toNat ++ " has no block"
  | .misshapen kind why => "structure: invalid " ++ kind.name ++ " node: " ++ why
  | .secondParent node parent =>
    "structure: node " ++ toString node ++ " already has parent " ++ toString parent
  | .alreadyPlaced block place =>
    "cfg: block %" ++ block ++ " already placed at node " ++ toString place.node ++ " index " ++
      toString place.index
  | .undrained count => "structure: " ++ toString count ++ " exit targets left undrained at the root"
  | .outOfBlocks => "structure: no block left to visit"
  | .outOfRange index size =>
    "structure: index out of range [" ++ toString index ++ "] with length " ++ toString size

end FlowTree
