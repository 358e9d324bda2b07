import FlowTree.Tree.Basic

/-!
Nested programs and the instructions that they are lowered to. A body is a sequence of items that ends in a
plain block; an item is a plain block, a conditional, a loop or a switch, with bodies inside it. Lowering gives
every construct its merge instruction and sends the end of each body on to where the program continues.
`Body.shapes` says what the structure tree of such a program looks like.
-/

namespace FlowTree

/-- The instruction neither opens nor ends a block, and it declares no construct. -/
def Opcode.isOrdinary (op : Opcode) : Bool := op ≠ .label && !op.isTerminator && !op.isMerge

namespace Nested

/-- The beginning of a block: its label, and the instructions before those that make up its end. -/
structure Opening where
  label : Id
  code : List Instruction := []
  ordinary : ∀ i ∈ code, i.op.isOrdinary = true := by simp

mutual

/-- Items in sequence. The last one is a plain block. -/
inductive Body where
  | last (block : Opening)
  | cons (item : Item) (rest : Body)

/-- A block by itself, or a construct with the block that it starts with. -/
inductive Item where
  | plain (block : Opening)
  | ifThen (header : Opening) (condition : Id) (whenTrue whenFalse : Arm)
  | loop (header : Opening) (condition : Id) (body : Body) (continuing : Arm)
  | switch (header : Opening) (selector : Id) (cases : Cases)

/-- A part of a construct that may be missing. -/
inductive Arm where
  | missing
  | present (body : Body)

/-- The cases of a switch, each of which may fall into the next one, and the default case at the end. -/
inductive Cases where
  | default (body : Body)
  | case (literal : Int) (falls : Bool) (body : Body) (rest : Cases)

end

/-- The label that an item starts with. -/
def Item.label : Item → Id
  | .plain block => block.label
  | .ifThen header _ _ _ => header.label
  | .loop header _ _ _ => header.label
  | .switch header _ _ => header.label

/-- The label that a body starts with. -/
def Body.first : Body → Id
  | .last block => block.label
  | .cons item _ => item.label

/-- The label that a part starts with, or where control goes on when it is missing. -/
def Arm.firstOr (next : Id) : Arm → Id
  | .missing => next
  | .present body => body.first

namespace Cases

/-- The label of the first case. -/
def first : Cases → Id
  | .default body => body.first
  | .case _ _ body _ => body.first

/-- The label of the default case. -/
def defaultLabel : Cases → Id
  | .default body => body.first
  | .case _ _ _ rest => rest.defaultLabel

/-- The literals of the other cases with their labels. -/
def branches : Cases → List SwitchCase
  | .default _ => []
  | .case literal _ body rest => ⟨literal, body.first⟩ :: rest.branches

end Cases

/-- Open a block. -/
def openBlock (label : Id) : Instruction := { op := .label, mnemonic := Opcode.label.name, result := label }

/-- Go on at a label, or leave the function. -/
def leave : Option Id → Instruction
  | some target => { op := .branch, mnemonic := Opcode.branch.name, operands := [.ofId target] }
  | none => { op := .return, mnemonic := Opcode.return.name }

/-- Go on at one of two labels. -/
def branchConditional (condition whenTrue whenFalse : Id) : Instruction :=
  { op := .branchConditional, mnemonic := Opcode.branchConditional.name,
    operands := [.ofId condition, .ofId whenTrue, .ofId whenFalse] }

/-- The operands of switch cases. -/
def caseOperands (cases : List SwitchCase) : List Operand :=
  cases.flatMap fun case => [.ofLiteral case.literal, .ofId case.target]

/-- Go on at the label of the selected case. -/
def branchSwitch (selector default : Id) (cases : List SwitchCase) : Instruction :=
  { op := .switch, mnemonic := Opcode.switch.name,
    operands := .ofId selector :: .ofId default :: caseOperands cases }

/-- Declare a selection. -/
def declareSelection (merge : Id) : Instruction :=
  { op := .selectionMerge, mnemonic := Opcode.selectionMerge.name,
    operands := [.ofId merge, .ofEnumerant "None"] }

/-- Declare a loop. -/
def declareLoop (merge continueTarget : Id) : Instruction :=
  { op := .loopMerge, mnemonic := Opcode.loopMerge.name,
    operands := [.ofId merge, .ofId continueTarget, .ofEnumerant "None"] }

/-! ### Lowering -/

/-- A block of a lowered program. -/
structure Segment where
  opening : Opening
  merge? : Option Instruction
  terminator : Instruction

namespace Segment

def label (s : Segment) : Id := s.opening.label

/-- What stands in the block behind its label. -/
def inside (s : Segment) : List Instruction := s.opening.code ++ s.merge?.toList ++ [s.terminator]

def instructions (s : Segment) : List Instruction := openBlock s.label :: s.inside

end Segment

mutual

/-- The blocks of a body that goes on at the given label, or that leaves the function. -/
def Body.lower (next? : Option Id) : Body → List Segment
  | .last block => [⟨block, none, leave next?⟩]
  | .cons item rest => item.lower rest.first ++ rest.lower next?

/-- The blocks of an item that goes on at the given label. -/
def Item.lower (next : Id) : Item → List Segment
  | .plain block => [⟨block, none, leave (some next)⟩]
  | .ifThen header condition whenTrue whenFalse =>
    ⟨header, some (declareSelection next),
      branchConditional condition (whenTrue.firstOr next) (whenFalse.firstOr next)⟩ ::
    (whenTrue.lower next ++ whenFalse.lower next)
  | .loop header condition body continuing =>
    let continueTarget := continuing.firstOr header.label
    ⟨header, some (declareLoop next continueTarget), branchConditional condition body.first next⟩ ::
    (body.lower (some continueTarget) ++ continuing.lower header.label)
  | .switch header selector cases =>
    ⟨header, some (declareSelection next), branchSwitch selector cases.defaultLabel cases.branches⟩ ::
    cases.lower next

/-- The blocks of a part that goes on at the given label. -/
def Arm.lower (next : Id) : Arm → List Segment
  | .missing => []
  | .present body => body.lower (some next)

/-- The blocks of cases. One that falls goes on at the case behind it, the others at the given label. -/
def Cases.lower (next : Id) : Cases → List Segment
  | .default body => body.lower (some next)
  | .case _ falls body rest => body.lower (some (if falls then rest.first else next)) ++ rest.lower next

end

/-- The labels of a program. -/
def Body.labels (body : Body) : List Id := (body.lower none).map Segment.label

/-- The function has the blocks of the program, whose last one leaves it. They stand in any order in which the
first block of the program is the entry. -/
def Body.LaidOut (body : Body) (f : Function) : Prop :=
  ∃ first rest, (first :: rest).Perm (body.lower none) ∧ first.label = body.first ∧
    f.instructions = (first :: rest).flatMap Segment.instructions

end Nested

/-! ### Shapes -/

/-- What a tree looks like: a block by its label, or a node with what is in it. -/
inductive Shape where
  | block (label : Id)
  | node (kind : Kind) (parts : List Shape)
  deriving Repr

namespace Nested

mutual

/-- What a body looks like in a tree. -/
def Body.shapes : Body → List Shape
  | .last block => [.block block.label]
  | .cons item rest => item.shape :: rest.shapes

/-- What an item looks like in a tree. -/
def Item.shape : Item → Shape
  | .plain block => .block block.label
  | .ifThen header _ whenTrue whenFalse =>
    .node .ifThen (.block header.label :: (whenTrue.shapes .ifPart ++ whenFalse.shapes .ifPart))
  | .loop header _ body continuing =>
    .node .loop (.block header.label :: .node .loopBody body.shapes :: continuing.shapes .continuing)
  | .switch header _ cases => .node .switch (.block header.label :: cases.shapes)

/-- A part as a node of the given kind, unless it is missing. -/
def Arm.shapes (kind : Kind) : Arm → List Shape
  | .missing => []
  | .present body => [.node kind body.shapes]

/-- The cases as nodes, in order. -/
def Cases.shapes : Cases → List Shape
  | .default body => [.node .case body.shapes]
  | .case _ _ body rest => .node .case body.shapes :: rest.shapes

end

end Nested

end FlowTree
