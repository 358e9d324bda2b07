/-!
Opcodes. Only those that shape control flow have a name of their own; every other instruction of a
program is carried through under its mnemonic.
-/

namespace FlowTree

/-- An instruction opcode. -/
inductive Opcode where
  | nop
  | line
  | function
  | functionParameter
  | functionEnd
  | phi
  | loopMerge
  | selectionMerge
  | label
  | branch
  | branchConditional
  | switch
  | kill
  | return
  | returnValue
  | unreachable
  | noLine
  | terminateInvocation
  | demoteToHelperInvocation
  /-- The opcode of every mnemonic that has no name here. -/
  | unknown
  /-- A number that is no named opcode. -/
  | other (code : UInt16)
  deriving DecidableEq, Repr, Inhabited

namespace Opcode

/-- The named opcodes with their numbers and mnemonics. -/
def table : List (Opcode × UInt16 × String) := [
  (.nop, 0, "OpNop"),
  (.line, 8, "OpLine"),
  (.function, 54, "OpFunction"),
  (.functionParameter, 55, "OpFunctionParameter"),
  (.functionEnd, 56, "OpFunctionEnd"),
  (.phi, 245, "OpPhi"),
  (.loopMerge, 246, "OpLoopMerge"),
  (.selectionMerge, 247, "OpSelectionMerge"),
  (.label, 248, "OpLabel"),
  (.branch, 249, "OpBranch"),
  (.branchConditional, 250, "OpBranchConditional"),
  (.switch, 251, "OpSwitch"),
  (.kill, 252, "OpKill"),
  (.return, 253, "OpReturn"),
  (.returnValue, 254, "OpReturnValue"),
  (.unreachable, 255, "OpUnreachable"),
  (.noLine, 317, "OpNoLine"),
  (.terminateInvocation, 4416, "OpTerminateInvocation"),
  (.demoteToHelperInvocation, 5380, "OpDemoteToHelperInvocation")]

/-- The number of an opcode. -/
def code (op : Opcode) : UInt16 :=
  match op with
  | .unknown => 0xFFFF
  | .other code => code
  | op => ((table.find? (·.1 = op)).map (·.2.1)).getD 0xFFFF

/-- The opcode with the given number. -/
def ofCode (code : UInt16) : Opcode :=
  if code = 0xFFFF then .unknown
  else ((table.find? (·.2.1 = code)).map (·.1)).getD (.other code)

/-- The mnemonic of a named opcode, the number of any other. -/
def name (op : Opcode) : String :=
  ((table.find? (·.1 = op)).map (·.2.2)).getD ("Op(" ++ toString op.code.toNat ++ ")")

/-- The opcode that a mnemonic names. -/
def ofMnemonic (mnemonic : String) : Opcode :=
  ((table.find? (·.2.2 = mnemonic)).map (·.1)).getD .unknown

/-- The instruction ends a basic block. -/
def isTerminator : Opcode → Bool
  | .branch | .branchConditional | .switch | .kill | .terminateInvocation
  | .return | .returnValue | .unreachable => true
  | _ => false

/-- The instruction leaves the function, or the invocation, for good. -/
def isReturnOrKill : Opcode → Bool
  | .kill | .terminateInvocation | .return | .returnValue => true
  | _ => false

/-- The instruction only marks a source line. -/
def isDebugLine : Opcode → Bool
  | .line | .noLine => true
  | _ => false

/-- The instruction declares where a construct merges. -/
def isMerge : Opcode → Bool
  | .loopMerge | .selectionMerge => true
  | _ => false

end Opcode

end FlowTree
