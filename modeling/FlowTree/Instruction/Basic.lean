import FlowTree.Instruction.Opcode

/-!
Instructions: an opcode with a result, operands and the place it was read from. The questions a block
or a construct asks of an instruction (its merge labels, its branch targets) are answered here, `none`
standing for operands that do not decode.
-/

namespace FlowTree

/-- The number of a value or a label. Zero stands for no result. -/
abbrev Id := UInt32

/-- A place in a source file. A line below one means that there is none. -/
structure Position where
  file : String := ""
  line : Int := 0
  column : Int := 0
  deriving DecidableEq, Repr, Inhabited

namespace Position

/-- The position lies in a source. -/
def isValid (p : Position) : Bool := 0 < p.line

/-- The position as `file:line:column`, without the file when it has no name. -/
def text (p : Position) : String :=
  let place := toString p.line ++ ":" ++ toString p.column
  if p.file = "" then place else p.file ++ ":" ++ place

end Position

inductive OperandKind where
  | id
  | literal
  | float
  | string
  | enumerant
  /-- A number that names no kind of operand. -/
  | other (code : UInt8)
  deriving DecidableEq, Repr, Inhabited

namespace OperandKind

/-- The number of a kind. -/
def code : OperandKind → UInt8
  | .id => 0
  | .literal => 1
  | .float => 2
  | .string => 3
  | .enumerant => 4
  | .other code => code

/-- The kind with the given number. -/
def ofCode (code : UInt8) : OperandKind :=
  match code.toNat with
  | 0 => .id
  | 1 => .literal
  | 2 => .float
  | 3 => .string
  | 4 => .enumerant
  | _ => .other code

end OperandKind

/-- An operand. Its kind tells which of the other fields counts. -/
structure Operand where
  kind : OperandKind
  id : Id := 0
  literal : Int := 0
  text : String := ""
  deriving DecidableEq, Repr, Inhabited

namespace Operand

/-- A reference to an id. -/
def ofId (id : Id) : Operand := ⟨.id, id, 0, ""⟩

/-- An integer. -/
def ofLiteral (n : Int) : Operand := ⟨.literal, 0, n, toString n⟩

/-- An enumerant such as `None`. -/
def ofEnumerant (name : String) : Operand := ⟨.enumerant, 0, 0, name⟩

/-- The id of an operand that refers to one. -/
def id? (o : Operand) : Option Id := if o.kind = .id then some o.id else none

end Operand

structure Instruction where
  op : Opcode
  mnemonic : String := ""
  result : Id := 0
  operands : List Operand := []
  position : Position := {}
  deriving DecidableEq, Repr, Inhabited

/-- A literal of a switch and the label it leads to. -/
structure SwitchCase where
  literal : Int
  target : Id
  deriving DecidableEq, Repr

/-- The case as `literal -> label`. -/
def SwitchCase.text (c : SwitchCase) : String := toString c.literal ++ " -> " ++ toString c.target.toNat

namespace Instruction

/-- The mnemonic: the source's own for an unknown opcode. -/
def name (i : Instruction) : String :=
  if i.op = .unknown && i.mnemonic != "" then i.mnemonic else i.op.name

/-- The id that operand `n` refers to. -/
def idAt? (i : Instruction) (n : Nat) : Option Id := i.operands[n]?.bind Operand.id?

/-- The merge label and the continue label of a loop merge, each as far as it decodes. -/
def loopLabels (i : Instruction) : Option Id × Option Id :=
  if i.op = .loopMerge then (i.idAt? 0, i.idAt? 1) else (none, none)

/-- The merge label and the continue label of a loop merge. -/
def loopMerge? (i : Instruction) : Option (Id × Id) := do
  let (merge?, continue?) := i.loopLabels
  let merge ← merge?
  let continueLabel ← continue?
  some (merge, continueLabel)

/-- The merge label of a selection merge. -/
def selectionMerge? (i : Instruction) : Option Id :=
  if i.op = .selectionMerge then i.idAt? 0 else none

/-- The labels a conditional branch takes when its condition holds and when it does not, each as far as
it decodes. -/
def conditionalLabels (i : Instruction) : Option Id × Option Id :=
  if i.op = .branchConditional then (i.idAt? 1, i.idAt? 2) else (none, none)

/-- The labels a conditional branch takes when its condition holds and when it does not. -/
def conditionalTargets? (i : Instruction) : Option (Id × Id) := do
  let (whenTrue?, whenFalse?) := i.conditionalLabels
  let whenTrue ← whenTrue?
  let whenFalse ← whenFalse?
  some (whenTrue, whenFalse)

/-- Pairs of a literal and a label. -/
def casesOf? : List Operand → Option (List SwitchCase)
  | [] => some []
  | literal :: target :: rest =>
    if literal.kind = .literal && target.kind = .id then
      (casesOf? rest).map (⟨literal.literal, target.id⟩ :: ·)
    else none
  | [_] => none

/-- The default label and the cases of a switch, in operand order. -/
def switchCases? (i : Instruction) : Option (Id × List SwitchCase) :=
  if i.op = .switch then do
    let default ← i.idAt? 1
    let cases ← casesOf? (i.operands.drop 2)
    some (default, cases)
  else none

/-- Every label a terminator may transfer control to, in operand order and with repeats; no label for
an instruction that branches nowhere. -/
def branchTargets? (i : Instruction) : Option (List Id) :=
  match i.op with
  | .branch => (i.idAt? 0).map ([·])
  | .branchConditional => i.conditionalTargets?.map fun (whenTrue, whenFalse) => [whenTrue, whenFalse]
  | .switch => i.switchCases?.map fun (default, cases) => default :: cases.map (·.target)
  | _ => some []

end Instruction

end FlowTree
