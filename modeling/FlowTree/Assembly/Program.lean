import FlowTree.Assembly.Token

/-!
Assembly programs: one statement a line, read from text and printed in a canonical form. Labels and
the frame of a function stand flush left there, all else is indented once, and comments and blank lines
are gone. Statements and operands repeat without a limit here, while a parser library stops after a
number of repetitions (participle after a million): texts are taken to be below that limit.
-/

namespace FlowTree.Assembly

/-- What an operand of a statement is. -/
inductive ArgumentKind where
  | id
  | float
  | integer
  | string
  | word
  deriving DecidableEq, Repr, Inhabited

/-- A piece of a statement and where it starts. -/
structure Word where
  text : String
  start : Cursor
  deriving DecidableEq, Repr, Inhabited

/-- An operand: ids keep their percent sign, strings are unquoted. -/
structure Argument where
  kind : ArgumentKind
  value : String
  start : Cursor
  deriving DecidableEq, Repr, Inhabited

/-- One line: an opcode with operands, and the id of its result if it has one. -/
structure Statement where
  result? : Option Word := none
  opcode : Word
  arguments : List Argument := []
  deriving DecidableEq, Repr, Inhabited

/-- The statements of a text. -/
structure Program where
  statements : List Statement
  deriving DecidableEq, Repr, Inhabited

/-- The name of an id: the id without its percent sign. -/
def Word.name (w : Word) : String := String.ofList (w.text.toList.drop 1)

def Statement.start (s : Statement) : Cursor := (s.result?.getD s.opcode).start

/-! ### Reading -/

/-- The kind of operand that a lexeme can be. -/
def ArgumentKind.ofLexeme? : LexemeKind → Option ArgumentKind
  | .id => some .id
  | .float => some .float
  | .integer => some .integer
  | .string => some .string
  | .word => some .word
  | _ => none

/-- Read the operands of a statement. -/
def readArgument (t : Token) : Except SyntaxError Argument :=
  match ArgumentKind.ofLexeme? t.kind with
  | some kind => .ok ⟨kind, t.value, t.start⟩
  | none => .error ⟨t.start, .unexpected t.value (some .newline)⟩

/-- Read an opcode and its operands. `stop` is the token at the end of the line. -/
def readBody (result? : Option Word) (tokens : List Token) (stop : Token) : Except SyntaxError Statement :=
  match tokens with
  | [] => .error ⟨stop.start, .unexpected stop.value (some .instruction)⟩
  | t :: rest =>
    if t.kind = .word then do
      let arguments ← rest.mapM readArgument
      .ok ⟨result?, ⟨t.value, t.start⟩, arguments⟩
    else .error ⟨t.start, .unexpected t.value (some .instruction)⟩

/-- Read one line that holds a token. -/
def readStatement (first : Token) (rest : List Token) (stop : Token) : Except SyntaxError Statement :=
  if first.kind = .id then
    match rest with
    | [] => .error ⟨stop.start, .unexpected stop.value (some .equals)⟩
    | sign :: rest =>
      if sign.value = "=" then readBody (some ⟨first.value, first.start⟩) rest stop
      else .error ⟨sign.start, .unexpected sign.value (some .equals)⟩
  else if first.kind = .word then readBody none (first :: rest) stop
  else .error ⟨first.start, .unexpected first.value none⟩

/-- The token belongs to the line. -/
def Token.inLine (t : Token) : Bool := t.kind ≠ .newline

/-- What stands at the end of a line that no line feed ends. -/
def Token.endOfText : Token := ⟨.newline, "<EOF>", {}⟩

/-- Read the statements of tokens a line at a time. -/
def readStatements : List Token → Except SyntaxError (List Statement)
  | [] => .ok []
  | first :: rest =>
    if first.kind = .newline then readStatements rest
    else do
      let after := rest.dropWhile Token.inLine
      let statement ← readStatement first (rest.takeWhile Token.inLine) (after.headD .endOfText)
      let statements ← readStatements after.tail
      .ok (statement :: statements)
termination_by tokens => tokens.length
decreasing_by
  · simp
  · have shorter : (rest.dropWhile Token.inLine).length ≤ rest.length := (List.dropWhile_suffix _).length_le
    simp only [List.length_tail, List.length_cons]; omega

/-- The text with a line feed at its end. -/
def closeLine (t : Text) : Text := if t.endsLine then t else t ++ [.char '\n']

/-- Read a program. The last line need not end with a line feed. -/
def Program.parse (t : Text) : Except SyntaxError Program := do
  let tokens ← Token.ofText (closeLine t)
  let statements ← readStatements tokens
  .ok ⟨statements⟩

/-! ### Printing -/

/-- The operand in text. -/
def Argument.text (a : Argument) : String :=
  if a.kind = .string then Text.quoteString a.value else a.value

def Statement.text (s : Statement) : String :=
  let result := match s.result? with
    | some w => w.text ++ " = "
    | none => ""
  result ++ s.opcode.text ++ String.join (s.arguments.map fun a => " " ++ a.text)

/-- The statement stands flush left. -/
def Statement.isFlush (s : Statement) : Bool :=
  s.opcode.text = "OpLabel" || s.opcode.text = "OpFunction" || s.opcode.text = "OpFunctionEnd"

/-- The program in its canonical form. -/
def Program.text (p : Program) : String :=
  String.join (p.statements.map fun s => (if s.isFlush then "" else "  ") ++ s.text ++ "\n")

end FlowTree.Assembly
