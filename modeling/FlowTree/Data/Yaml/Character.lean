/-!
The characters of YAML texts by what they do: end lines, stand between words, spell names, or start
something with a structure of its own.
-/

namespace FlowTree.Yaml

/-- The character ends a line. -/
def isBreak (c : Char) : Bool :=
  let n := c.toNat
  n = 0x0A || n = 0x0D || n = 0x85 || n = 0x2028 || n = 0x2029

/-- The character can be shown as it is. -/
def isShown (c : Char) : Bool :=
  let n := c.toNat
  n = 0x0A || 0x20 ≤ n && n ≤ 0x7E || 0xA0 ≤ n && n ≤ 0xFFFD && n ≠ 0xFEFF

/-- The character may stand in a text that is read. -/
def isAllowed (c : Char) : Bool :=
  isShown c || c = '\t' || c = '\r' || c.toNat = 0x85 || c.toNat = 0xFEFF || 0x10000 ≤ c.toNat

/-- The character is a blank or a tab. -/
def isBlank (c : Char) : Bool := c = ' ' || c = '\t'

/-- The character stands between words. -/
def isSpace (c : Char) : Bool := isBlank c || isBreak c

/-- The character may stand in the name of an anchor or a directive. -/
def isNameChar (c : Char) : Bool := c.isAlphanum || c = '_' || c = '-'

/-- The character may stand in a tag. -/
def isTagChar (c : Char) : Bool := isNameChar c || ";/?:@&=+$,.!~*'()[]%".toList.contains c

/-- A blank, the end of a line or the end of the text follows. -/
def endsWord (rest : List Char) : Bool := rest.head?.all isSpace

/-- The text with every line ended by a line feed, however it was ended. Only the two separators of
lines and paragraphs stay what they are. -/
def unifyBreaks : List Char → List Char
  | '\r' :: '\n' :: rest => '\n' :: unifyBreaks rest
  | c :: rest => (if c = '\r' || c.toNat = 0x85 then '\n' else c) :: unifyBreaks rest
  | [] => []

end FlowTree.Yaml
