import FlowTree.Data.Yaml.Character

/-!
Where the reading of a text stands, and how it goes on.
-/

namespace FlowTree.Yaml

/-- Where reading stands. -/
structure Cursor where
  rest : List Char
  /-- The number of lines before. -/
  line : Nat := 0
  /-- The number of characters before on the line. -/
  column : Nat := 0
  /-- Since the end of a line, nothing but blanks has been read. -/
  fresh : Bool := false
  deriving Repr, Inhabited

/-- The marks that start a document and that end one. -/
def startMark : List Char := ['-', '-', '-']
def endMark : List Char := ['.', '.', '.']

namespace Cursor

/-- Pass over one character. -/
def next (c : Cursor) : Cursor :=
  match c.rest with
  | [] => c
  | a :: rest =>
    if isBreak a then ⟨rest, c.line + 1, 0, true⟩ else ⟨rest, c.line, c.column + 1, c.fresh && isBlank a⟩

/-- Pass over `count` characters. -/
def advance (count : Nat) (c : Cursor) : Cursor := count.repeat next c

/-- The characters up to the first that does not satisfy `p`. -/
def word (p : Char → Bool) (c : Cursor) : List Char := c.rest.takeWhile p

/-- Pass over characters up to the first that does not satisfy `p`. -/
def skipWhile (p : Char → Bool) (c : Cursor) : Cursor := c.advance (c.word p).length

/-- The character that is next is the given one. -/
def at? (a : Char) (c : Cursor) : Bool := c.rest.head? = some a

/-- Pass over the rest of the line. -/
def skipLine (c : Cursor) : Cursor := c.skipWhile fun a => !isBreak a

/-- The end of the line or of the text is next. -/
def atLineEnd (c : Cursor) : Bool := c.rest.head?.all isBreak

/-- A mark stands here: at the start of a line, alone or before a blank. -/
def atMark (mark : List Char) (c : Cursor) : Bool :=
  c.column = 0 && mark.isPrefixOf c.rest && endsWord (c.rest.drop mark.length)

/-- A mark of either kind stands here. -/
def atAnyMark (c : Cursor) : Bool := c.atMark startMark || c.atMark endMark

/-- How many characters before a hash may be blank for it to be found. -/
def commentReach : Nat := 512

/-- Pass over the comment that is next on the line, with the blanks before it. -/
def skipLineComment (c : Cursor) : Cursor :=
  let blanks := (c.word isBlank).length
  if !c.fresh && blanks < commentReach && (c.advance blanks).at? '#' then (c.advance blanks).skipLine else c

/-- Pass over the lines of comments that are next, from a hash on. The lines after the first may start
with tabs, and there may be empty lines among them. -/
def skipComments : (fuel : Nat) → Cursor → Cursor
  | 0, c => c
  | fuel + 1, c =>
    if c.at? '#' then
      let ended := c.skipLine
      let gap := (ended.word fun a => isBlank a || a = '\n').length
      let following := ended.advance gap
      if 0 < gap && gap < commentReach && following.at? '#' then skipComments fuel following else ended
    else c

end Cursor

/-! ### Gaps -/

/-- What stands between two words of a scalar. -/
structure Gap where
  /-- The blanks before the first end of a line. -/
  spaces : List Char := []
  /-- The ends of lines. -/
  breaks : List Char := []
  /-- The leftmost tab at the start of a line. -/
  tab? : Option Nat := none
  deriving Repr

namespace Gap

/-- The gap with one more character, at the given column. -/
def push (column : Nat) (g : Gap) (a : Char) : Gap :=
  if isBreak a then { g with breaks := g.breaks ++ [a] }
  else if g.breaks.isEmpty then { g with spaces := g.spaces ++ [a] }
  else if a = '\t' && g.tab?.all (column < ·) then { g with tab? := some column }
  else g

/-- Read the gap that is next. -/
def read (c : Cursor) : Gap × Cursor :=
  (c.word isSpace).foldl (fun (g, c) a => (g.push c.column a, c.next)) ({}, c)

/-- What a gap stands for: its blanks on one line, else one blank for one end of a line, and one fewer
line feed than there are for several. -/
def joined (g : Gap) : List Char :=
  match g.breaks with
  | [] => g.spaces
  | ['\n'] => [' ']
  | '\n' :: more => more
  | breaks => breaks

end Gap

end FlowTree.Yaml
