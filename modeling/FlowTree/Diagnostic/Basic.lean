import FlowTree.Diagnostic.Code
import FlowTree.Instruction.Basic
import FlowTree.Text.EditDistance

/-!
Diagnostics: what is wrong, where, and what may be done about it. Each kind of finding has one
constructor here, so its wording stands in one place.
-/

namespace FlowTree

/-- How grave a diagnostic is. -/
inductive Level where
  | error
  | warning
  | note
  | help
  /-- A level without a meaning here. -/
  | other (name : String)
  deriving DecidableEq, Repr, Inhabited

namespace Level

def name : Level → String
  | .error => "error"
  | .warning => "warning"
  | .note => "note"
  | .help => "help"
  | .other name => name

def ofName (name : String) : Level :=
  match name with
  | "error" => .error
  | "warning" => .warning
  | "note" => .note
  | "help" => .help
  | _ => .other name

end Level

/-- A suggested fix, with the text to put in if there is one. -/
structure Suggestion where
  message : String
  replacement : String := ""
  deriving DecidableEq, Repr, Inhabited

/-- A finding. -/
structure Diagnostic where
  level : Level := .error
  code : Code
  message : String
  position : Position := {}
  /-- The number of columns to underline. -/
  length : Int := 1
  /-- The label that the finding is about; it is underlined where the line names it. -/
  label : String := ""
  suggestions : List Suggestion := []
  notes : List String := []
  help : String := ""
  deriving DecidableEq, Repr, Inhabited

namespace Diagnostic

/-- The diagnostic is below the gravity of an error. -/
def isWarning (d : Diagnostic) : Bool := d.level = .warning || d.code.isWarning

/-- The diagnostic on one line. -/
def text (d : Diagnostic) : String :=
  (if d.position.isValid then d.position.text ++ ": " else "") ++ d.level.name ++
    (if d.code = "" then "" else "[" ++ d.code ++ "]") ++ ": " ++ d.message

/-! ### Assembly text -/

/-- Text that the grammar refuses. -/
def unreadableText (message : String) (position : Position) : Diagnostic where
  code := Code.unreadableText
  message
  position
  help := "each line holds one instruction: [%result =] OpName operands..."

/-- A mnemonic without an opcode. It is only a warning: the instruction is kept. -/
def unknownOpcode (mnemonic : String) (position : Position) : Diagnostic where
  level := .warning
  code := Code.unknownOpcode
  message := "unknown opcode '" ++ mnemonic ++ "'"
  position
  length := mnemonic.utf8ByteSize
  notes := ["the instruction is kept but has no effect on control flow"]

/-- A function that is never closed. -/
def unterminatedFunction (name : String) (position : Position) : Diagnostic where
  code := Code.unterminatedFunction
  message := "function '" ++ name ++ "' is missing OpFunctionEnd"
  position
  suggestions := [⟨"add OpFunctionEnd after the last block", ""⟩]

/-- An integer operand that does not fit. -/
def invalidLiteral (literal : String) (position : Position) : Diagnostic where
  code := Code.invalidLiteral
  message := "literal '" ++ literal ++ "' is out of range"
  position
  length := literal.utf8ByteSize

/-! ### Control-flow graph -/

/-- A function without instructions. -/
def emptyFunction (name : String) : Diagnostic where
  code := Code.emptyFunction
  message := "function '" ++ name ++ "' has no instructions"
  notes := ["a function body must contain at least one labeled block"]

/-- An instruction outside every block. -/
def expectedLabel (found : String) (position : Position) : Diagnostic where
  code := Code.expectedLabel
  message := "expected OpLabel, found " ++ found
  position
  length := found.utf8ByteSize
  suggestions := [⟨"start a new block with '%name = OpLabel'", ""⟩]
  notes := ["every block must begin with OpLabel and end with a termination instruction"]

/-- A block without a terminator. -/
def unterminatedBlock (label : String) (position : Position) : Diagnostic where
  code := Code.unterminatedBlock
  message := "block '%" ++ label ++ "' has no termination instruction"
  position
  suggestions :=
    [⟨"end the block with OpBranch, OpBranchConditional, OpSwitch, OpReturn, OpKill or OpUnreachable", ""⟩]

/-- A branch or merge whose labels do not decode. -/
def missingBranchTargets (opcode : String) (position : Position) : Diagnostic where
  code := Code.missingBranchTargets
  message := opcode ++ " has no resolvable branch targets"
  position
  length := opcode.utf8ByteSize
  help := "branch targets must be %id operands naming labels"

/-- The suggestion to use one of the names that are near. -/
def nearNames : List String → List Suggestion
  | [] => []
  | [name] => [⟨"did you mean '%" ++ name ++ "'?", ""⟩]
  | names => [⟨"did you mean one of: '%" ++ "', '%".intercalate names ++ "'?", ""⟩]

/-- A branch to a label that no block has. -/
def undefinedLabel (name : String) (position : Position) (labels : List String) : Diagnostic where
  code := Code.undefinedLabel
  message := "undefined label '%" ++ name ++ "'"
  position
  label := name
  suggestions := nearNames (Text.similarNames name labels)

/-- A label of two blocks. -/
def duplicateLabel (name : String) (position : Position) : Diagnostic where
  code := Code.duplicateLabel
  message := "label '%" ++ name ++ "' is defined more than once"
  position
  label := name
  suggestions := [⟨"rename one of the blocks", ""⟩]

/-! ### Structuring -/

/-- A selection merge before a terminator that selects nothing. -/
def invalidTerminationAfterMerge (terminator : String) (position : Position) : Diagnostic where
  code := Code.invalidTerminationAfterMerge
  message := "invalid termination instruction " ++ terminator ++ " following OpSelectionMerge"
  position
  length := terminator.utf8ByteSize
  suggestions :=
    [⟨"use OpBranchConditional or OpSwitch after OpSelectionMerge", ""⟩, ⟨"or remove the OpSelectionMerge", ""⟩]

/-- A switch case that falls into several others. -/
def switchCaseMultipleTargets (label : String) (targets : List String) (position : Position) : Diagnostic where
  code := Code.switchCaseMultipleTargets
  message := "switch case '%" ++ label ++ "' branches to multiple cases"
  position
  label := targets.headD ""
  notes := ["reachable cases: %" ++ ", %".intercalate targets]
  help := "a case may fall through into at most one other case"

/-- Switch cases that fall into each other in a circle. -/
def switchCasesFormLoop (label : String) (position : Position) : Diagnostic where
  code := Code.switchCasesFormLoop
  message := "switch cases form a loop through '%" ++ label ++ "'"
  position
  help := "fallthrough between cases must not return to an earlier case"

/-- Control flow that the merge instructions do not describe. -/
def unstructuredControlFlow (label detail : String) (position : Position) : Diagnostic where
  code := Code.unstructuredControlFlow
  message := "unstructured control flow at '%" ++ label ++ "': " ++ detail
  position
  suggestions := [⟨"add OpSelectionMerge or OpLoopMerge before the branch", ""⟩]
  notes := ["only reducible control flow with merge instructions can be structured"]

/-- A block that no path from the entry reaches. -/
def unreachableBlock (label : String) (position : Position) : Diagnostic where
  level := .warning
  code := Code.unreachableBlock
  message := "block '%" ++ label ++ "' is unreachable"
  position
  label
  notes := ["unreachable blocks are left out of the structure tree"]

end Diagnostic

def hasErrors (ds : List Diagnostic) : Bool := ds.any (!·.isWarning)

end FlowTree
