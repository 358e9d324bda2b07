import FlowTree.Data.Yaml.Cursor
import FlowTree.Text.Quoted

/-!
Reading scalars: plain, in quotes, and as blocks of lines. Each reader starts at the first character of
the scalar and leaves off behind its last.
-/

namespace FlowTree.Yaml

/-! ### Plain scalars -/

/-- The word of a plain scalar that is next. A colon at the end of a word ends it, and within brackets a
bracket, a comma or a question mark does. -/
def plainWord (inFlow : Bool) : List Char → List Char
  | [] => []
  | c :: rest =>
    if isSpace c || c = ':' && endsWord rest || inFlow && ",?[]\x7b\x7d".toList.contains c then []
    else c :: plainWord inFlow rest

/-- Read the words of a plain scalar and the gap behind it, having read `text` and `gap`. Outside of
brackets its further lines stand right of `indent`, and no tab stands left of that. The flag tells that
the scalar ends with a line. -/
def plainWords? (inFlow : Bool) (indent : Int) : (fuel : Nat) → (text : List Char) → (gap : Gap) →
    Cursor → Option (List Char × Bool × Cursor)
  | 0, _, _, _ => none
  | fuel + 1, text, gap, c =>
    let word := if c.atAnyMark || c.at? '#' then [] else plainWord inFlow c.rest
    if word.isEmpty then some (text, !gap.breaks.isEmpty, c)
    else
      let text := text ++ gap.joined ++ word
      let (gap, after) := Gap.read (c.advance word.length)
      if gap.tab?.any fun column => (column : Int) ≤ indent then none
      else if !inFlow && !gap.breaks.isEmpty && (after.column : Int) ≤ indent then some (text, true, after)
      else plainWords? inFlow indent fuel text gap after

/-- A plain scalar may start here. -/
def startsPlain (inFlow : Bool) : List Char → Bool
  | [] => false
  | c :: rest =>
    if c = '-' then !rest.head?.any isBlank
    else if c = '?' || c = ':' then !inFlow && !endsWord rest
    else !(isSpace c || ",[]\x7b\x7d#&*!|>'\"%@`".toList.contains c)

/-- Read a plain scalar. The flag tells that it ends with a line. -/
def plain? (inFlow : Bool) (indent : Int) (c : Cursor) : Option (String × Bool × Cursor) := do
  let (text, endsLine, after) ← plainWords? inFlow indent (c.rest.length + 1) [] {} c
  some (String.ofList text, endsLine, after)

/-! ### Quoted scalars -/

/-- The character that the escape after a backslash stands for, and the length of the escape. -/
def escape? : List Char → Option (Char × Nat)
  | [] => none
  | c :: rest =>
    let coded (count : Nat) : Option (Char × Nat) := do
      if rest.length < count then none
      let n ← Text.ofDigits? 16 (rest.take count)
      some (← Text.charOf? n, count + 1)
    match c with
    | '0' => some ('\x00', 1)
    | 'a' => some ('\x07', 1)
    | 'b' => some ('\x08', 1)
    | 't' | '\t' => some ('\t', 1)
    | 'n' => some ('\n', 1)
    | 'v' => some ('\x0b', 1)
    | 'f' => some ('\x0c', 1)
    | 'r' => some ('\r', 1)
    | 'e' => some ('\x1b', 1)
    | 'N' => some ('\u0085', 1)
    | '_' => some ('\u00a0', 1)
    | 'L' => some ('\u2028', 1)
    | 'P' => some ('\u2029', 1)
    | 'x' => coded 2
    | 'u' => coded 4
    | 'U' => coded 8
    | c => if c = ' ' || c = '"' || c = '\x27' || c = '\\' then some (c, 1) else none

/-- Read the inside of a quoted scalar and its closing quote, having read `text`. A line that starts with
the mark of a document is no part of one. -/
def quotedBody? (double : Bool) : (fuel : Nat) → (text : List Char) → Cursor → Option (List Char × Cursor)
  | 0, _, _ => none
  | fuel + 1, text, c =>
    if c.atAnyMark then none
    else match c.rest with
    | [] => none
    | a :: rest =>
      if isSpace a then
        let (gap, after) := Gap.read c
        quotedBody? double fuel (text ++ gap.joined) after
      else if !double && a = '\x27' then
        if rest.head? = some '\x27' then quotedBody? double fuel (text ++ ['\x27']) (c.advance 2)
        else some (text, c.next)
      else if double && a = '"' then some (text, c.next)
      else if double && a = '\\' then
        if rest.head?.any isBreak then
          let (gap, after) := Gap.read (c.advance 2)
          quotedBody? double fuel (text ++ gap.breaks) after
        else do
          let (e, count) ← escape? rest
          quotedBody? double fuel (text ++ [e]) (c.advance (count + 1))
      else quotedBody? double fuel (text ++ [a]) c.next

/-- Read a quoted scalar from its opening quote. -/
def quoted? (c : Cursor) : Option (String × Cursor) := do
  let (text, after) ← quotedBody? (c.at? '"') (c.rest.length + 1) [] c.next
  some (String.ofList text, after)

/-! ### Blocks of lines -/

/-- What becomes of the ends of lines after a block: the first is kept, none, or all. -/
inductive Chomping where
  | clip
  | strip
  | keep
  deriving DecidableEq, Repr

/-- The way of chomping that a character asks for. -/
def Chomping.ofChar? (c : Char) : Option Chomping :=
  if c = '+' then some .keep else if c = '-' then some .strip else none

/-- The heading of a block: what becomes of the ends of lines, and how far the block is indented more than
what it is in, zero if that is not given. -/
structure Heading where
  chomping : Chomping := .clip
  indent : Nat := 0

/-- Read the way of chomping that is next, if it is given. -/
def Heading.readChomping (h : Heading) (c : Cursor) : Heading × Cursor :=
  match c.rest.head?.bind Chomping.ofChar? with
  | some chomping => ({ h with chomping }, c.next)
  | none => (h, c)

/-- Read the indentation that is next, if it is given. It is not zero. -/
def Heading.readIndent? (h : Heading) (c : Cursor) : Option (Heading × Cursor) :=
  match c.rest.head? with
  | some d =>
    if d = '0' then none
    else if d.isDigit then some ({ h with indent := d.toNat - '0'.toNat }, c.next)
    else some (h, c)
  | none => some (h, c)

/-- Read the heading of a block from behind its first character to the end of its line. Its two parts may
stand in either order. -/
def Heading.read? (c : Cursor) : Option (Heading × Cursor) := do
  let (h, c) := Heading.readChomping {} c
  let (h, c) ← h.readIndent? c
  let (h, c) := if h.chomping = .clip then h.readChomping c else (h, c)
  let c := c.skipWhile isBlank
  let c := if c.at? '#' then c.skipLine else c
  if c.atLineEnd then some (h, c.next) else none

/-- A block that is being read: its text, the end of its last line and the empty lines after that. -/
structure Block where
  text : List Char := []
  ending : List Char := []
  empties : List Char := []
  /-- The last line started with a blank. -/
  blankLed : Bool := false

namespace Block

/-- Add a line, without its indentation, to a block. A folded block joins two lines by a blank unless
one of them starts with one. -/
def push (folded : Bool) (line ending empties : List Char) (b : Block) : Block :=
  let blankLed := line.head?.any isBlank
  let joint :=
    if folded && !b.blankLed && !blankLed && b.ending = ['\n'] then
      if b.empties.isEmpty then [' '] else []
    else b.ending
  ⟨b.text ++ joint ++ b.empties ++ line, ending, empties, blankLed⟩

/-- Pass over the empty lines before a line of a block and over its indentation, which ends at column
`indent`, or anywhere if that is zero. A tab is no part of it. The result has the ends of the empty lines
and the rightmost column that was reached. -/
def indentation? (indent : Nat) : (fuel : Nat) → (empties : List Char) → (widest : Nat) → Cursor →
    Option (List Char × Nat × Cursor)
  | 0, _, _, _ => none
  | fuel + 1, empties, widest, c =>
    let spaces := (c.word (· = ' ')).length
    let c := c.advance (if indent = 0 then spaces else min spaces (indent - c.column))
    let widest := max widest c.column
    if (indent = 0 || c.column < indent) && c.at? '\t' then none
    else match c.rest with
      | a :: _ =>
        if isBreak a then indentation? indent fuel (empties ++ [a]) widest c.next
        else some (empties, widest, c)
      | [] => some (empties, widest, c)

/-- Read the lines of a block whose text starts at column `indent`. -/
def lines? (folded : Bool) (indent : Nat) : (fuel : Nat) → Block → Cursor → Option (Block × Cursor)
  | 0, _, _ => none
  | fuel + 1, b, c =>
    if c.column = indent && !c.rest.isEmpty then do
      let line := c.word fun a => !isBreak a
      let ended := c.advance line.length
      let (empties, _, after) ← indentation? indent (ended.rest.length + 1) [] 0 ended.next
      lines? folded indent fuel (b.push folded line ended.rest.head?.toList empties) after
    else some (b, c)

/-- The text of a block once the ends of lines after it are settled. -/
def settled (b : Block) : Chomping → List Char
  | .strip => b.text
  | .clip => b.text ++ b.ending
  | .keep => b.text ++ b.ending ++ b.empties

end Block

/-- Read a block of lines, from its bar or angle bracket, in a value at `indent`. Where the heading does
not say where the text starts, that is the column of the first line that is not empty, or the rightmost
one before that, and right of the value. -/
def block? (indent : Int) (c : Cursor) : Option (String × Cursor) := do
  let (heading, start) ← Heading.read? c.next
  let given := if heading.indent = 0 then 0 else indent.toNat + heading.indent
  let (empties, widest, first) ← Block.indentation? given (start.rest.length + 1) [] 0 start
  let column := if given = 0 then max widest (max (indent + 1).toNat 1) else given
  let (b, after) ← Block.lines? (c.at? '>') column (c.rest.length + 1) { empties } first
  some (String.ofList (b.settled heading.chomping), after)

end FlowTree.Yaml
