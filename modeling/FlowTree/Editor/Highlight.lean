import FlowTree.Assembly.Program
import FlowTree.Data.Basic
import FlowTree.Editor.Range

/-!
Highlighting: the words of a program with what they are, for an editor to colour. Tokens are sent as
numbers, five for each, with places relative to the token before.
-/

namespace FlowTree.Editor
open Assembly

/-- What a word is. -/
inductive TokenKind where
  | label
  | type
  | function
  | value
  | opcode
  | number
  | string
  | enumerant
  deriving DecidableEq, Repr

namespace TokenKind

/-- All kinds of words, in the order of their numbers, with the names that editors have for them. -/
def legend : List (TokenKind × String) := [
  (.label, "namespace"), (.type, "type"), (.function, "function"), (.value, "variable"),
  (.opcode, "keyword"), (.number, "number"), (.string, "string"), (.enumerant, "enumMember")]

/-- The number of a kind. -/
def code (k : TokenKind) : UInt32 := UInt32.ofNat (legend.findIdx (·.1 = k))

end TokenKind

/-- The names of what may be said of a word beside its kind; each has a bit of its own. -/
def modifierLegend : List String := ["declaration", "definition", "readonly"]

def declarationBit : UInt32 := 1

/-- A word to colour. -/
structure Highlight where
  start : Point
  length : UInt32
  kind : TokenKind
  modifiers : UInt32 := 0
  deriving DecidableEq, Repr

/-- What an id of a program names: a label, a function or a value. The last statement that makes it a
label or a function counts. -/
def idKind (p : Program) (id : String) : TokenKind :=
  let named := p.statements.reverse.findSome? fun s =>
    if s.result?.any (·.text = id) then
      if s.opcode.text = "OpLabel" then some TokenKind.label
      else if s.opcode.text = "OpFunction" then some .function
      else none
    else none
  named.getD .value

/-- The highlight of a text; its length is counted in bytes. A text without characters has none. -/
def highlight (start : Cursor) (text : String) (kind : TokenKind) (modifiers : UInt32) : List Highlight :=
  let point : Point := ⟨Point.wrap (start.line - 1), Point.wrap (start.column - 1)⟩
  if text = "" then [] else [⟨point, UInt32.ofNat text.utf8ByteSize, kind, modifiers⟩]

/-- What an operand is. -/
def argumentKind (p : Program) (a : Argument) : TokenKind :=
  match a.kind with
  | .id => idKind p a.value
  | .integer | .float => .number
  | .string => .string
  | .word => .enumerant

/-- The highlights of a statement, from the left. -/
def statementHighlights (p : Program) (s : Statement) : List Highlight :=
  (match s.result? with
    | some w => highlight w.start w.text (idKind p w.text) declarationBit
    | none => []) ++
  highlight s.opcode.start s.opcode.text .opcode 0 ++
  s.arguments.flatMap fun a => highlight a.start a.text (argumentKind p a) 0

/-- The highlights of a program, from its start. -/
def highlights (p : Program) : List Highlight := p.statements.flatMap (statementHighlights p)

/-- The numbers of highlights after a token at `last`: the lines passed over, the characters passed over
on the line, the length, the kind and the modifiers of each. -/
def encodeHighlights : (last : Point) → List Highlight → List UInt32
  | _, [] => []
  | last, h :: hs =>
    let lines := h.start.line - last.line
    -- Columns are relative on the line of the token before and absolute on a new one.
    let characters := if lines = 0 then h.start.character - last.character else h.start.character
    lines :: characters :: h.length :: h.kind.code :: h.modifiers :: encodeHighlights h.start hs

end FlowTree.Editor
