import FlowTree.Text.Glyph

/-!
Lexemes of the assembly text. Every rule looks at the front of the text and says how far it matches;
the lexemes and what is left where no rule matches are together the whole text.
-/

namespace FlowTree.Assembly

/-- What a stretch of text is. -/
inductive LexemeKind where
  /-- From a semicolon to the end of the line. -/
  | comment
  /-- A quoted string. -/
  | string
  /-- A percent sign and a name. -/
  | id
  | float
  | integer
  /-- An opcode or an enumerant; masks join several with bars. -/
  | word
  | equals
  | newline
  /-- Blanks within a line. -/
  | blank
  deriving DecidableEq, Repr, Inhabited

/-- A stretch of text and what it is. -/
structure Lexeme where
  kind : LexemeKind
  text : Text
  deriving DecidableEq, Repr

/-- Letters of ASCII. -/
def isLetter (c : Char) : Bool := 'a' ≤ c && c ≤ 'z' || 'A' ≤ c && c ≤ 'Z'

/-- Characters of an id's name. -/
def isIdChar (c : Char) : Bool := isLetter c || c.isDigit || c = '_' || c = '.'

/-- Characters that start a word. -/
def isWordStart (c : Char) : Bool := isLetter c || c = '_'

/-- Characters of a word. -/
def isWordChar (c : Char) : Bool := isLetter c || c.isDigit || c = '_'

/-- Blanks within a line. -/
def isBlank (c : Char) : Bool := c = ' ' || c = '\t' || c = '\r'

/-- Signs of a number. -/
def isSign (c : Char) : Bool := c = '-' || c = '+'

/-- Hexadecimal digits. -/
def isHexDigit (c : Char) : Bool := c.isDigit || 'a' ≤ c && c ≤ 'f' || 'A' ≤ c && c ≤ 'F'

/-- The number of glyphs at the front that read as characters of the class. -/
def run (p : Char → Bool) (t : Text) : Nat := (t.takeWhile fun g => p g.toChar).length

/-- The front reads as one character of the class. -/
def starts (p : Char → Bool) : Text → Bool
  | g :: _ => p g.toChar
  | [] => false

/-- The glyphs up to and with the quote that closes a string. A backslash takes the glyph after it,
which may be anything but a line feed. -/
def stringRest? : Text → Option Nat
  | [] => none
  | g :: rest =>
    match g.toChar with
    | '"' => some 1
    | '\\' =>
      match rest with
      | [] => none
      | e :: rest => if e.toChar = '\n' then none else (stringRest? rest).map (· + 2)
    | _ => (stringRest? rest).map (· + 1)

/-- The glyphs of an exponent, none when its digits are missing. -/
def exponentLength (t : Text) : Nat :=
  if starts (fun c => c = 'e' || c = 'E') t then
    let sign := if starts isSign (t.drop 1) then 1 else 0
    let digits := run Char.isDigit (t.drop (1 + sign))
    if digits = 0 then 0 else 1 + sign + digits
  else 0

/-- The length of an unsigned decimal fraction. -/
def fractionLength? (t : Text) : Option Nat :=
  let whole := run Char.isDigit t
  let after := t.drop (whole + 1)
  let places := run Char.isDigit after
  if 0 < whole && starts (· = '.') (t.drop whole) && 0 < places then
    some (whole + 1 + places + exponentLength (after.drop places))
  else none

/-- The length of an unsigned integer: hexadecimal after `0x`, and decimal otherwise. -/
def naturalLength? (t : Text) : Option Nat :=
  let digits := run isHexDigit (t.drop 2)
  if starts (· = '0') t && starts (· = 'x') (t.drop 1) && 0 < digits then some (2 + digits)
  else
    let digits := run Char.isDigit t
    if 0 < digits then some digits else none

/-- The kind and the length of a number, fractions first. -/
def number? (t : Text) : Option (LexemeKind × Nat) :=
  let sign := if starts isSign t then 1 else 0
  match fractionLength? (t.drop sign) with
  | some n => some (.float, sign + n)
  | none => (naturalLength? (t.drop sign)).map fun n => (.integer, sign + n)

/-- The glyphs of a word after its first: the rest of its characters, and further words after bars. -/
def wordRest : Text → Nat
  | [] => 0
  | g :: rest =>
    if isWordChar g.toChar then wordRest rest + 1
    else if g.toChar = '|' && starts isWordStart rest then wordRest rest + 1
    else 0

/-- The kind of the lexeme that starts with the glyph, and the number of glyphs after its first. -/
def lexeme? (g : Glyph) (rest : Text) : Option (LexemeKind × Nat) :=
  let c := g.toChar
  if c = ';' then some (.comment, run (· ≠ '\n') rest)
  else if c = '"' then (stringRest? rest).map (LexemeKind.string, ·)
  else if c = '%' then
    let n := run isIdChar rest
    if 0 < n then some (.id, n) else none
  else if isSign c || c.isDigit then (number? (g :: rest)).map fun (kind, n) => (kind, n - 1)
  else if isWordStart c then some (.word, wordRest rest)
  else if c = '=' then some (.equals, 0)
  else if c = '\n' then some (.newline, 0)
  else if isBlank c then some (.blank, run isBlank rest)
  else none

/-- The lexemes of a text, and what is left of it where no rule matches. -/
def lex : Text → List Lexeme × Text
  | [] => ([], [])
  | g :: rest =>
    match lexeme? g rest with
    | none => ([], g :: rest)
    | some (kind, n) =>
      let (lexemes, left) := lex (rest.drop n)
      (⟨kind, g :: rest.take n⟩ :: lexemes, left)
termination_by t => t.length
decreasing_by simp only [List.length_drop, List.length_cons]; omega

end FlowTree.Assembly
