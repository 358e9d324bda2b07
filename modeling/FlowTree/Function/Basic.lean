import FlowTree.Function.Names
import FlowTree.Text.Quoted

/-!
Functions and modules, and how they are printed: a comment with the function's name, labels flush left
and every instruction after the first label indented once.
-/

namespace FlowTree

/-- The instructions of one function body, with the names its ids have in the source. -/
structure Function where
  name : String
  result : Id := 0
  instructions : List Instruction := []
  names : NameTable := {}
  deriving DecidableEq, Repr, Inhabited

/-- The functions read from one source. -/
structure Module where
  name : String
  functions : List Function := []
  deriving DecidableEq, Repr, Inhabited

/-- The operand in text, ids under the given names. -/
def Operand.render (names : NameTable) (o : Operand) : String :=
  match o.kind with
  | .id => "%" ++ names.nameOf o.id
  | .string => Text.quoteString o.text
  | _ => o.text

/-- The instruction in text, ids under the given names. -/
def Instruction.render (names : NameTable) (i : Instruction) : String :=
  let result := if i.result = 0 then "" else "%" ++ names.nameOf i.result ++ " = "
  let operands := " ".intercalate (i.operands.map (Operand.render names))
  result ++ i.name ++ if operands = "" then "" else " " ++ operands

/-- The instruction in text with numbers for ids. -/
def Instruction.text (i : Instruction) : String := i.render {}

namespace Function

/-- The name of an id, or its number when it has none. -/
def nameOf (f : Function) (id : Id) : String := f.names.nameOf id

/-- The instruction in text under this function's names. -/
def render (f : Function) (i : Instruction) : String := i.render f.names

/-- The lines of instructions. `inBlock` tells that a label has been printed. -/
def renderLines (f : Function) : (inBlock : Bool) → List Instruction → String
  | _, [] => ""
  | inBlock, i :: rest =>
    if i.op = .label then f.render i ++ "\n" ++ f.renderLines true rest
    else (if inBlock then "  " else "") ++ f.render i ++ "\n" ++ f.renderLines inBlock rest

/-- The disassembly of the function. -/
def text (f : Function) : String := "; function " ++ f.name ++ "\n" ++ f.renderLines false f.instructions

end Function

namespace Module

/-- The disassembly of the module: its functions with an empty line between them. -/
def text (m : Module) : String := "\n".intercalate (m.functions.map Function.text)

/-- The first function with the given name. -/
def function? (m : Module) (name : String) : Option Function := m.functions.find? (·.name = name)

end Module

end FlowTree
