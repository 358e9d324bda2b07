import FlowTree.Data.Yaml.Scalar
import FlowTree.Data.Yaml.Token

/-!
The tokens of a text in the order in which they are taken.

A text is read no further than its next tokens need. Most tokens are known when they are met, but whether
something is a key shows only at the colon behind it: its token then goes back before those of the key,
and so does the start of the mapping, if the key is the first of one. So a token can be taken only once no
key can start at it any more, and two tokens behind it have been read as well.
-/

namespace FlowTree.Yaml

/-- A place where a key may start. -/
structure KeyStart where
  /-- A key may still start here. -/
  possible : Bool := false
  /-- Only a key can stand here. -/
  required : Bool := false
  /-- The token at this place is held back until it is known whether a key starts here. -/
  awaited : Bool := false
  /-- The number of tokens before. -/
  number : Nat := 0
  line : Nat := 0
  column : Nat := 0
  deriving Repr, Inhabited

/-- The greatest length of a key that is not marked as one, and the greatest depth of nesting. -/
def keyReach : Nat := 1024
def deepest : Nat := 10000

/-- A colon here would make what starts there a key: it is on the same line and not too far away. -/
def KeyStart.reaches (k : KeyStart) (c : Cursor) : Bool :=
  k.possible && k.line = c.line && c.column ≤ k.column + keyReach

/-- The reading of the tokens of a text. -/
structure TokenStream where
  cursor : Cursor
  /-- The tokens that have been read and not taken. -/
  queue : List Token := []
  /-- The number of tokens that have been taken. -/
  taken : Nat := 0
  /-- The column of the innermost block; -1 outside of all. -/
  indent : Int := -1
  /-- The columns of the blocks around it. -/
  indents : List Int := []
  /-- What comes next may be a key without being marked as one. -/
  keyAllowed : Bool := true
  /-- Where a key may start: in the innermost brackets, or outside of all. -/
  keyStart : KeyStart := {}
  /-- Where keys may start that go on behind the brackets, for each pair of brackets from the inside. -/
  outerKeys : List KeyStart := []
  /-- The text starts with a second byte order mark. -/
  marked : Bool := false
  deriving Repr, Inhabited

namespace TokenStream

/-- Reading stands within brackets. -/
def inFlow (s : TokenStream) : Bool := !s.outerKeys.isEmpty

/-- Append a token. -/
def push (token : Token) (s : TokenStream) : TokenStream := { s with queue := s.queue ++ [token] }

/-- Insert a token before the one of the given number; one that has been taken is no hindrance, and the
token then comes last. -/
def insert (number : Nat) (token : Token) (s : TokenStream) : TokenStream :=
  if number < s.taken then s.push token
  else { s with queue := s.queue.insertIdx (number - s.taken) token }

/-- Pass over `count` characters. -/
def advance (count : Nat) (s : TokenStream) : TokenStream := { s with cursor := s.cursor.advance count }

/-! ### Blocks -/

/-- Start a block at the given column if it is right of the innermost one. Its token goes before the one
of the given number, or last. -/
def openBlock? (column : Nat) (number? : Option Nat) (token : Token) (s : TokenStream) : Option TokenStream :=
  if s.inFlow || (column : Int) ≤ s.indent then some s
  else if deepest ≤ s.indents.length then none
  else
    let s := { s with indent := column, indents := s.indent :: s.indents }
    some (match number? with
      | some number => s.insert number token
      | none => s.push token)

/-- The ends of the blocks right of the given column: how many there are, and what is around them. -/
def endedBlocks (column : Int) : (indent : Int) → List Int → Nat × Int × List Int
  | indent, [] => (0, indent, [])
  | indent, outer :: more =>
    if column < indent then
      let (count, rest) := endedBlocks column outer more
      (count + 1, rest)
    else (0, indent, outer :: more)

/-- End all blocks right of the given column. -/
def closeBlocks (column : Int) (s : TokenStream) : TokenStream :=
  if s.inFlow then s
  else
    let (count, indent, indents) := endedBlocks column s.indent s.indents
    { s with queue := s.queue ++ List.replicate count .blockEnd, indent, indents }

/-! ### Keys -/

/-- No key starts where one might have. That fails where there had to be one. -/
def dropKey? (s : TokenStream) : Option TokenStream :=
  if s.keyStart.possible && s.keyStart.required then none
  else some { s with keyStart := { s.keyStart with possible := false, awaited := false } }

/-- A key may start here if one is allowed. At the column of a block nothing but a key can stand. -/
def markKey? (s : TokenStream) : Option TokenStream :=
  if !s.keyAllowed then some s
  else do
    let required := !s.inFlow && s.indent = s.cursor.column
    let s ← s.dropKey?
    let number := s.taken + s.queue.length
    some { s with keyStart := ⟨true, required, true, number, s.cursor.line, s.cursor.column⟩ }

/-- Enter brackets, in which no key has started yet. -/
def enterFlow? (s : TokenStream) : Option TokenStream :=
  if deepest ≤ s.outerKeys.length then none
  else
    let number := s.taken + s.queue.length
    some { s with keyStart := { number }, outerKeys := s.keyStart :: s.outerKeys }

/-- Leave brackets. Brackets without anything that might be a key are no longer held back themselves. -/
def leaveFlow (s : TokenStream) : TokenStream :=
  match s.outerKeys with
  | [] => s
  | k :: outerKeys =>
    { s with keyStart := { k with awaited := k.awaited && k.number ≠ s.keyStart.number }, outerKeys }

/-! ### Single tokens -/

/-- Take the end of the text. -/
def endStream? (s : TokenStream) : Option TokenStream := do
  let c := s.cursor
  let s := { s with cursor := if c.column = 0 then c else { c with line := c.line + 1, column := 0 } }
  let s ← (s.closeBlocks (-1)).dropKey?
  some ({ s with keyAllowed := false }.push .streamEnd)

/-- Read a token that stands at the start of a line and ends all blocks. -/
def boundary? (read : Cursor → Option (Token × Cursor)) (s : TokenStream) : Option TokenStream := do
  let s ← (s.closeBlocks (-1)).dropKey?
  let (token, cursor) ← read s.cursor
  some ({ s with cursor, keyAllowed := false }.push token)

/-- Take an opening bracket. It may start a key, and so may what follows it. -/
def flowStart? (token : Token) (s : TokenStream) : Option TokenStream := do
  let s ← (← s.markKey?).enterFlow?
  some (({ s with keyAllowed := true }.advance 1).push token)

/-- Take a closing bracket. -/
def flowEnd? (token : Token) (s : TokenStream) : Option TokenStream := do
  let s := (← s.dropKey?).leaveFlow
  some (({ s with keyAllowed := false }.advance 1).push token)

/-- Take a comma. -/
def flowEntry? (s : TokenStream) : Option TokenStream := do
  let s ← s.dropKey?
  some (({ s with keyAllowed := true }.advance 1).push .flowEntry)

/-- Outside of brackets, start a block of the given kind here if need be. It may start only where a key
may. -/
def openBlockHere? (token : Token) (s : TokenStream) : Option TokenStream :=
  if s.inFlow then some s
  else if s.keyAllowed then s.openBlock? s.cursor.column none token
  else none

/-- Take the dash of an item. -/
def blockEntry? (s : TokenStream) : Option TokenStream := do
  let s ← (← s.openBlockHere? .blockSequenceStart).dropKey?
  some (({ s with keyAllowed := true }.advance 1).push .blockEntry)

/-- Take the question mark of a key. -/
def key? (s : TokenStream) : Option TokenStream := do
  let s ← (← s.openBlockHere? .blockMappingStart).dropKey?
  some (({ s with keyAllowed := !s.inFlow }.advance 1).push .key)

/-- Take the colon of a value. What might have been a key now is one. -/
def value? (s : TokenStream) : Option TokenStream := do
  let k := s.keyStart
  let s ←
    -- What was read since that place is the key, so the tokens for it go in front.
    if k.reaches s.cursor then
      let s := s.insert k.number .key
      let s ← s.openBlock? k.column (some k.number) .blockMappingStart
      some { s with keyStart := { k with possible := false, awaited := false }, keyAllowed := false }
    else if k.possible && k.required then none
    else
      let s ← s.openBlockHere? .blockMappingStart
      some { s with keyStart := { k with possible := false }, keyAllowed := !s.inFlow }
  some ((s.advance 1).push .value)

/-- Take a token that may start a key and may not be followed by one. -/
def word? (read : Cursor → Option (Token × Cursor)) (s : TokenStream) : Option TokenStream := do
  let s ← s.markKey?
  let (token, cursor) ← read s.cursor
  some ({ s with cursor, keyAllowed := false }.push token)

/-- Take a plain scalar. After one that ends with a line there may be a key. -/
def plainScalar? (s : TokenStream) : Option TokenStream := do
  let s ← s.markKey?
  let (text, keyAllowed, cursor) ← plain? s.inFlow s.indent s.cursor
  some ({ s with cursor, keyAllowed }.push (.scalar true text))

/-- Take a block of lines. -/
def blockScalar? (s : TokenStream) : Option TokenStream := do
  let s ← s.dropKey?
  let (text, cursor) ← block? s.indent s.cursor
  some ({ s with cursor, keyAllowed := true }.push (.scalar false text))

/-! ### Reading on -/

/-- Pass over blanks, comments and ends of lines. A tab is a blank only within brackets or where no key
can start, and outside of brackets a key can start on a new line. -/
def skipSpace : (fuel : Nat) → TokenStream → TokenStream
  | 0, s => s
  | fuel + 1, s =>
    let c := if s.marked && s.cursor.column = 0 then s.cursor.next else s.cursor
    let c := c.skipWhile fun a => a = ' ' || a = '\t' && (s.inFlow || !s.keyAllowed)
    let c := c.skipComments c.rest.length
    if c.rest.head?.any isBreak then
      skipSpace fuel { s with cursor := c.next, keyAllowed := s.keyAllowed || !s.inFlow }
    else { s with cursor := c }

/-- Read the token that starts with the character `a`, before `rest`. -/
def token? (a : Char) (rest : List Char) (s : TokenStream) : Option TokenStream :=
  if a = '[' then s.flowStart? .flowSequenceStart
  else if a = '\x7b' then s.flowStart? .flowMappingStart
  else if a = ']' then s.flowEnd? .flowSequenceEnd
  else if a = '\x7d' then s.flowEnd? .flowMappingEnd
  else if a = ',' then s.flowEntry?
  else if a = '-' && endsWord rest then s.blockEntry?
  else if a = '?' && (s.inFlow || endsWord rest) then s.key?
  else if a = ':' && (s.inFlow || endsWord rest) then s.value?
  else if a = '*' then s.word? fun c => (Token.name? c).map fun (name, c) => (.reference name, c)
  else if a = '&' then s.word? fun c => (Token.name? c).map fun (name, c) => (.anchor name, c)
  else if a = '!' then s.word? Token.tag?
  else if (a = '|' || a = '>') && !s.inFlow then s.blockScalar?
  else if a = '\x27' || a = '"' then
    s.word? fun c => (quoted? c).map fun (text, c) => (.scalar false text, c)
  else if startsPlain s.inFlow (a :: rest) then s.plainScalar?
  else none

/-- Read on to the next token. A comment may stand behind it on its line, but one behind a dash belongs to
the item. -/
def read? (s : TokenStream) : Option TokenStream := do
  let s := s.skipSpace (s.cursor.rest.length + 1)
  let s := s.closeBlocks s.cursor.column
  match s.cursor.rest with
  | [] => s.endStream?
  | a :: rest =>
    if a = '%' && s.cursor.column = 0 then s.boundary? Token.directive?
    else if s.cursor.atMark startMark then s.boundary? fun c => some (.documentStart, c.advance 3)
    else if s.cursor.atMark endMark then s.boundary? fun c => some (.documentEnd, c.advance 3)
    else
      let s ← s.token? a rest
      if s.queue.getLast? = some .blockEntry then some s
      else some { s with cursor := s.cursor.skipLineComment }

/-- The place where the next token to be taken might start a key. -/
def headKey? (s : TokenStream) : Option KeyStart :=
  (s.keyStart :: s.outerKeys).find? fun k => k.possible && k.awaited && k.number = s.taken

/-- Read on until the next token can be taken. -/
def ready? : (fuel : Nat) → TokenStream → Option TokenStream
  | 0, _ => none
  | fuel + 1, s =>
    -- Two tokens are always read ahead of the one that is taken.
    if s.queue.length < 3 then s.read?.bind (ready? fuel)
    else match s.headKey? with
      | none => some s
      | some k =>
        if k.reaches s.cursor then s.read?.bind (ready? fuel)
        else if k.required then none
        else some s

/-- The next token, and the stream once it can be taken. Every token but the last takes a character. -/
def peek? (s : TokenStream) : Option (Token × TokenStream) := do
  let s ← s.ready? (s.cursor.rest.length + 4)
  some (← s.queue.head?, s)

/-- Take the next token. -/
def drop (s : TokenStream) : TokenStream := { s with queue := s.queue.tail, taken := s.taken + 1 }

/-- The tokens of a text. A byte order mark at its front is no part of it. -/
def ofText? (text : String) : Option TokenStream :=
  let cs := text.toList
  let cs := if cs.head? = some '\ufeff' then cs.tail else cs
  if cs.all isAllowed then
    some { cursor := { rest := unifyBreaks cs }, marked := cs.head? = some '\ufeff' }
  else none

end TokenStream

end FlowTree.Yaml
