import FlowTree.Assembly.Lexeme
import FlowTree.Text.Quoted

/-!
Tokens: the lexemes that count, each with its value and the place where it starts. A string's value is
what its quoted form stands for.
-/

namespace FlowTree.Assembly

/-- A place in the text: line and column counted from one, in characters, and the bytes before it. -/
structure Cursor where
  line : Nat := 1
  column : Nat := 1
  offset : Nat := 0
  deriving DecidableEq, Repr, Inhabited

namespace Cursor

/-- The place after one more glyph. -/
def step (c : Cursor) (g : Glyph) : Cursor :=
  if g.toChar = '\n' then ⟨c.line + 1, 1, c.offset + g.width⟩
  else ⟨c.line, c.column + 1, c.offset + g.width⟩

/-- The place after a text. -/
def after (c : Cursor) (t : Text) : Cursor := t.foldl step c

end Cursor

/-- What the grammar would have taken in place of an unexpected token. -/
inductive Expectation where
  /-- The sign after a result id. -/
  | equals
  /-- An opcode and what follows it. -/
  | instruction
  /-- The end of the line. -/
  | newline
  deriving DecidableEq, Repr

/-- How an expectation reads. -/
def Expectation.text : Expectation → String
  | .equals => "\"=\""
  | .instruction => "PosIdent Operand* <newline>"
  | .newline => "<newline>"

/-- What is wrong with a text. -/
inductive SyntaxFault where
  /-- No rule matches what is left of the text. -/
  | strayText (left : Text)
  /-- The escapes of a quoted string are malformed. -/
  | malformedString (quoted : Text)
  /-- A token stands where the grammar takes none of its kind. -/
  | unexpected (value : String) (expected? : Option Expectation)
  deriving DecidableEq, Repr

/-- The first characters of a text, with dots for those that are left out. -/
def sample (t : Text) : String :=
  if t.length ≤ 16 then t.shown else Text.shown (t.take 16) ++ "..."

/-- How a fault reads. -/
def SyntaxFault.message : SyntaxFault → String
  | .strayText left => "lexer: invalid input text " ++ Text.quoteString (sample left)
  | .malformedString quoted => "invalid quoted string " ++ Text.quote quoted ++ ": invalid syntax"
  | .unexpected value expected? =>
    "unexpected token " ++ Text.quoteString value ++
      match expected? with
      | none => ""
      | some e => " (expected " ++ e.text ++ ")"

/-- A fault and where it is. -/
structure SyntaxError where
  start : Cursor
  fault : SyntaxFault
  deriving DecidableEq, Repr

/-- How the error reads. -/
def SyntaxError.message (e : SyntaxError) : String := e.fault.message

/-- A lexeme that counts, its value and where it starts. -/
structure Token where
  kind : LexemeKind
  value : String
  start : Cursor
  deriving DecidableEq, Repr, Inhabited

namespace Token

/-- The kinds of lexeme that separate tokens and are no tokens. -/
def isSkipped (kind : LexemeKind) : Bool := kind = .blank || kind = .comment

/-- The text between the quotes of a string lexeme. -/
def inner (quoted : Text) : Text := (quoted.drop 1).dropLast

def value? (l : Lexeme) : Option String :=
  if l.kind = .string then (Text.unquote? (inner l.text)).map String.ofList else some l.text.shown

/-- The tokens of lexemes that follow each other from a place, in front of a text without a rule. The
first fault counts. -/
def ofLexemes (left : Text) : Cursor → List Lexeme → Except SyntaxError (List Token)
  | c, [] => if left.isEmpty then .ok [] else .error ⟨c, .strayText left⟩
  | c, l :: rest =>
    match value? l with
    | none => .error ⟨c, .malformedString l.text⟩
    | some value => do
      let tokens ← ofLexemes left (c.after l.text) rest
      .ok (if isSkipped l.kind then tokens else ⟨l.kind, value, c⟩ :: tokens)

def ofText (t : Text) : Except SyntaxError (List Token) :=
  let (lexemes, left) := lex t
  ofLexemes left {} lexemes

end Token

end FlowTree.Assembly
