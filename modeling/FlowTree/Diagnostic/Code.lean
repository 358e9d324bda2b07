/-!
Diagnostic codes. A code is a letter and four digits; its hundreds tell what it is about. Codes are
compared as strings, so any text has a category and is, or is not, a warning.
-/

namespace FlowTree

/-- A diagnostic code such as `E0205`. -/
abbrev Code := String

namespace Code

/-! ### Assembly text -/

/-- The text could not be read. -/
def unreadableText : Code := "E0100"

/-- A mnemonic names no opcode. -/
def unknownOpcode : Code := "E0101"

/-- A function is never closed. -/
def unterminatedFunction : Code := "E0102"

/-- An integer operand does not fit. -/
def invalidLiteral : Code := "E0103"

/-! ### Control-flow graph -/

/-- A function has no instructions. -/
def emptyFunction : Code := "E0201"

/-- An instruction stands where a block has to start. -/
def expectedLabel : Code := "E0202"

/-- A block has no terminator. -/
def unterminatedBlock : Code := "E0203"

/-- The targets of a branch do not decode. -/
def missingBranchTargets : Code := "E0204"

/-- A branch names a label that no block has. -/
def undefinedLabel : Code := "E0205"

/-- Two blocks have one label. -/
def duplicateLabel : Code := "E0206"

/-! ### Structuring -/

/-- A selection merge stands before a terminator that selects nothing. -/
def invalidTerminationAfterMerge : Code := "E0600"

/-- A switch case falls into more than one other. -/
def switchCaseMultipleTargets : Code := "E0601"

/-- Switch cases fall into each other in a circle. -/
def switchCasesFormLoop : Code := "E0602"

/-- The merge instructions do not describe the control flow. -/
def unstructuredControlFlow : Code := "E0603"

/-! ### Warnings -/

/-- No path from the entry reaches a block. -/
def unreachableBlock : Code := "W0001"

/-- The codes in use with what they say. -/
def descriptions : List (Code × String) := [
  (unreadableText, "Assembly text could not be parsed"),
  (unknownOpcode, "Instruction mnemonic is not a known opcode"),
  (unterminatedFunction, "OpFunction is missing its OpFunctionEnd"),
  (invalidLiteral, "Literal operand is out of range"),
  (emptyFunction, "Function body has no instructions"),
  (expectedLabel, "Expected OpLabel to start a basic block"),
  (unterminatedBlock, "Basic block has no termination instruction"),
  (missingBranchTargets, "Termination instruction has no resolvable targets"),
  (undefinedLabel, "Branch target label is not defined"),
  (duplicateLabel, "Label is defined more than once"),
  (invalidTerminationAfterMerge, "Invalid termination instruction following a merge instruction"),
  (switchCaseMultipleTargets, "Switch case branches to multiple cases"),
  (switchCasesFormLoop, "Switch cases form a loop"),
  (unstructuredControlFlow, "Control flow is not structured"),
  (unreachableBlock, "Block is unreachable from the entry block")]

/-- What a code says. -/
def describe (code : Code) : String := (descriptions.lookup code).getD "Unknown error code"

/-- The code lies from `low` up to but not including `high`. -/
def between (low high code : Code) : Bool := decide (low ≤ code) && decide (code < high)

/-- The code stands for a warning. -/
def isWarning (code : Code) : Bool := between "E0800" "E0900" code || code.toList.head? = some 'W'

/-- What a code is about. -/
def category (code : Code) : String :=
  if between "E0100" "E0200" code then "Assembly"
  else if between "E0200" "E0300" code then "Control Flow Graph"
  else if between "E0600" "E0700" code then "Structuring"
  else if isWarning code then "Warning"
  else "Unknown"

end Code

end FlowTree
