import FlowTree.Assembly.Program
import FlowTree.Diagnostic.Basic
import FlowTree.Function.Builder

/-!
From programs to modules. A program with a function frame has one function per `OpFunction`, which
goes on to its `OpFunctionEnd`; a program without any is the body of one function called `main`.
-/

namespace FlowTree

namespace Assembly

def Cursor.inFile (file : String) (c : Cursor) : Position := ⟨file, c.line, c.column⟩

def SyntaxError.diagnostic (file : String) (e : SyntaxError) : Diagnostic :=
  .unreadableText e.message (e.start.inFile file)

end Assembly

open Assembly

/-- A module in the making: the finished functions, the one that is open with the place where it
starts, the mnemonics already warned about, and the diagnostics so far. -/
structure Lowering where
  file : String
  functions : List Function := []
  open? : Option (Builder × Position) := none
  warned : List String := []
  diagnostics : List Diagnostic := []

namespace Lowering

/-- Add a diagnostic. -/
def report (l : Lowering) (d : Diagnostic) : Lowering := { l with diagnostics := l.diagnostics ++ [d] }

/-- The operand of an argument, the builder after it, and what there is to report. -/
def operand (file : String) (b : Builder) (a : Argument) : Operand × Builder × List Diagnostic :=
  match a.kind with
  | .id =>
    let (id, b) := b.id a.value
    (.ofId id, b, [])
  | .integer =>
    let literal := Text.readInteger a.value
    let reports := if literal.error?.isSome then [.invalidLiteral a.value (a.start.inFile file)] else []
    (.ofLiteral literal.value, b, reports)
  | .float => (⟨.float, 0, 0, a.value⟩, b, [])
  | .string => (⟨.string, 0, 0, a.value⟩, b, [])
  | .word => (.ofEnumerant a.value, b, [])

/-- The operands of arguments, from the left. -/
def operands (file : String) (b : Builder) : List Argument → List Operand × Builder × List Diagnostic
  | [] => ([], b, [])
  | a :: rest =>
    let (o, b, here) := operand file b a
    let (os, b, later) := operands file b rest
    (o :: os, b, here ++ later)

/-- Add a statement to the open function. The result's id comes before those of the operands. -/
def instruction (l : Lowering) (b : Builder) (start : Position) (s : Statement) : Lowering :=
  let position := s.start.inFile l.file
  let mnemonic := s.opcode.text
  let op := Opcode.ofMnemonic mnemonic
  -- An unknown opcode is warned about once in a module.
  let l := if op = .unknown && !l.warned.contains mnemonic then
      { l.report (.unknownOpcode mnemonic position) with warned := mnemonic :: l.warned }
    else l
  let (result, b) := match s.result? with
    | some w => b.id w.name
    | none => ((0 : Id), b)
  let (operands, b, reports) := operands l.file b s.arguments
  { l with
    open? := some (b.append { op, mnemonic, result, operands, position }, start)
    diagnostics := l.diagnostics ++ reports }

/-- Close the open function. -/
def finish (l : Lowering) (b : Builder) : Lowering :=
  { l with functions := l.functions ++ [b.function], open? := none }

/-- Close a function that its source leaves open. -/
def abandon (l : Lowering) (b : Builder) (start : Position) : Lowering :=
  (l.report (.unterminatedFunction b.name start)).finish b

/-- Close the function that is open, if any, as one that its source leaves open. -/
def abandonOpen (l : Lowering) : Lowering :=
  match l.open? with
  | some (b, start) => l.abandon b start
  | none => l

/-- Open a function: it has the name of its result, or `main`. -/
def begin (l : Lowering) (s : Statement) : Lowering :=
  let b := match s.result? with
    | some w => (Builder.start w.name).setResult w.name
    | none => Builder.start "main"
  { l with open? := some (b, s.start.inFile l.file) }

/-- Take one statement of a program with function frames. -/
def step (l : Lowering) (s : Statement) : Lowering :=
  match Opcode.ofMnemonic s.opcode.text with
  | .function => l.abandonOpen.begin s
  | .functionParameter => l
  | .functionEnd =>
    match l.open? with
    | some (b, _) => l.finish b
    | none => l.report (.unreadableText "OpFunctionEnd outside a function" (s.start.inFile l.file))
  | _ =>
    match l.open? with
    | some (b, start) => l.instruction b start s
    | none => l

/-- Take one statement of a program that is a single body. -/
def bodyStep (l : Lowering) (s : Statement) : Lowering :=
  match l.open? with
  | some (b, start) => l.instruction b start s
  | none => l

end Lowering

/-- The program has a function frame. -/
def Assembly.Program.isFramed (p : Program) : Bool := p.statements.any (·.opcode.text = "OpFunction")

/-- The module of a program, with what there is to report. -/
def Module.lower (file : String) (p : Program) : Module × List Diagnostic :=
  let l : Lowering :=
    if p.isFramed then (p.statements.foldl Lowering.step { file }).abandonOpen
    else
      let l := p.statements.foldl Lowering.bodyStep { file, open? := some (Builder.start "main", {}) }
      match l.open? with
      | some (b, _) => l.finish b
      | none => l
  (⟨file, l.functions⟩, l.diagnostics)

/-- The module of a source text: none when the text is no program. -/
def Module.ofText (file : String) (source : Text) : Option Module × List Diagnostic :=
  match Program.parse source with
  | .error e => (none, [e.diagnostic file])
  | .ok p =>
    let (m, diagnostics) := Module.lower file p
    (some m, diagnostics)

end FlowTree
