import FlowTree.Data.Basic
import FlowTree.Diagnostic.Basic

/-!
Places in a document as editors count them, from zero and in 32 bits, and diagnostics in those terms.
-/

namespace FlowTree.Editor

/-- A place between two characters of a line. -/
structure Point where
  line : UInt32 := 0
  character : UInt32 := 0
  deriving DecidableEq, Repr, Inhabited

namespace Point

/-- The point stands earlier in the document. -/
def before (a b : Point) : Bool := a.line < b.line || a.line = b.line && a.character < b.character

/-- A number of the program in 32 bits. -/
def wrap (n : Int) : UInt32 := UInt32.ofNat (n % UInt32.size).toNat

/-- A position as a point; a position that is none is the start of the document. -/
def ofPosition (p : Position) : Point := if p.isValid then ⟨wrap (p.line - 1), wrap (p.column - 1)⟩ else {}

def toData (p : Point) : Data :=
  .record [("line", .int p.line.toNat), ("character", .int p.character.toNat)]

end Point

/-- A stretch of a document. -/
structure Range where
  start : Point := {}
  stop : Point := {}
  deriving DecidableEq, Repr, Inhabited

def Range.toData (r : Range) : Data := .record [("start", r.start.toData), ("end", r.stop.toData)]

/-! ### Diagnostics -/

/-- How grave a finding is. -/
inductive Severity where
  | error
  | warning
  deriving DecidableEq, Repr

/-- The number of a severity. -/
def Severity.code : Severity → Int
  | .error => 1
  | .warning => 2

/-- A diagnostic for an editor. -/
structure Finding where
  range : Range
  severity : Severity
  code : Code
  message : String
  /-- The code it is about has no effect and may be faded. -/
  unnecessary : Bool
  deriving DecidableEq, Repr

namespace Finding

/-- A diagnostic in an editor's terms. It underlines at least one character. -/
def ofDiagnostic (d : Diagnostic) : Finding :=
  let (line, column) := if d.position.isValid then (d.position.line - 1, d.position.column - 1) else (0, 0)
  let length := if d.length ≤ 0 then 1 else d.length
  { range := ⟨⟨Point.wrap line, Point.wrap column⟩, ⟨Point.wrap line, Point.wrap (column + length)⟩⟩
    severity := if d.isWarning then .warning else .error
    code := d.code
    message := d.message
    unnecessary := d.code = Code.unreachableBlock }

def toData (f : Finding) : Data :=
  .record ([("range", f.range.toData), ("severity", .int f.severity.code)] ++ Data.textField "code" f.code ++
    [("source", .str "shaderflow"), ("message", .str f.message)] ++
    if f.unnecessary then [("tags", .list [.int 1])] else [])

end Finding

end FlowTree.Editor
