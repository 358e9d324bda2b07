import FlowTree.Function.Basic

/-!
Building a function an instruction at a time. Names are resolved to ids on first use, so a label may
be branched to before it is defined.
-/

namespace FlowTree

/-- A function under construction, and the position that instructions without one of their own get. -/
structure Builder where
  name : String
  result : Id := 0
  instructions : List Instruction := []
  naming : Naming := {}
  position : Position := {}
  deriving DecidableEq, Repr, Inhabited

namespace Builder

/-- A builder for a function with the given name. -/
def start (name : String) : Builder := { name }

/-- The function as built so far. -/
def function (b : Builder) : Function := ⟨b.name, b.result, b.instructions, b.naming.table⟩

/-- The id of a name, bound on first use. -/
def id (b : Builder) (name : String) : Id × Builder :=
  let (id, naming) := b.naming.resolve name
  (id, { b with naming })

/-- The ids of names, bound from the left on first use. -/
def ids (b : Builder) (names : List String) : List Id × Builder :=
  let (ids, naming) := b.naming.resolveAll names
  (ids, { b with naming })

/-- The position of the instructions added from here on. -/
def moveTo (b : Builder) (position : Position) : Builder := { b with position }

/-- Add an instruction as it is, placed where the builder stands if it has no position. -/
def append (b : Builder) (i : Instruction) : Builder :=
  let i := if i.position.isValid then i else { i with position := b.position }
  { b with instructions := b.instructions ++ [i] }

/-- Add an instruction with id operands given by name; no result for an empty result name. -/
def emit (b : Builder) (op : Opcode) (result : String) (operands : List String) : Builder :=
  let (resultId, b) := if result = "" then ((0 : Id), b) else b.id result
  let (ids, b) := b.ids operands
  b.append { op, mnemonic := op.name, result := resultId, operands := ids.map Operand.ofId }

/-- Start a block. -/
def label (b : Builder) (name : String) : Id × Builder :=
  let (id, b) := b.id name
  (id, b.append { op := .label, mnemonic := Opcode.label.name, result := id })

/-- Branch to a label. -/
def branch (b : Builder) (target : String) : Builder := b.emit .branch "" [target]

/-- Branch to one of two labels. -/
def branchConditional (b : Builder) (condition whenTrue whenFalse : String) : Builder :=
  b.emit .branchConditional "" [condition, whenTrue, whenFalse]

/-- The operands of switch cases, their labels resolved from the left. -/
def caseOperands (b : Builder) : List (Int × String) → List Operand × Builder
  | [] => ([], b)
  | (literal, target) :: rest =>
    let (id, b) := b.id target
    let (operands, b) := b.caseOperands rest
    (Operand.ofLiteral literal :: Operand.ofId id :: operands, b)

/-- Branch on a selector to the label of its case. -/
def switch (b : Builder) (selector default : String) (cases : List (Int × String)) : Builder :=
  let (head, b) := b.ids [selector, default]
  let (operands, b) := b.caseOperands cases
  b.append { op := .switch, mnemonic := Opcode.switch.name, operands := head.map Operand.ofId ++ operands }

/-- Declare where the selection that follows merges. -/
def selectionMerge (b : Builder) (merge : String) : Builder :=
  let (ids, b) := b.ids [merge]
  b.append {
    op := .selectionMerge
    mnemonic := Opcode.selectionMerge.name
    operands := ids.map Operand.ofId ++ [Operand.ofEnumerant "None"] }

/-- Declare where a loop merges and where it continues. -/
def loopMerge (b : Builder) (merge continueTarget : String) : Builder :=
  let (ids, b) := b.ids [merge, continueTarget]
  b.append {
    op := .loopMerge
    mnemonic := Opcode.loopMerge.name
    operands := ids.map Operand.ofId ++ [Operand.ofEnumerant "None"] }

/-- Mark the source line of what follows. -/
def line (b : Builder) (file : String) (line column : Int) : Builder :=
  let (ids, b) := b.ids [file]
  b.append {
    op := .line
    mnemonic := Opcode.line.name
    operands := ids.map Operand.ofId ++ [Operand.ofLiteral line, Operand.ofLiteral column] }

/-- Record the function's own result. -/
def setResult (b : Builder) (name : String) : Builder :=
  let (id, b) := b.id name
  { b with result := id }

end Builder

end FlowTree
