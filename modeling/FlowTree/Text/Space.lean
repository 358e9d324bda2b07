import FlowTree.Text.Glyph

/-!
White space, and texts without it at their ends.
-/

namespace FlowTree

/-- The character is white space: a blank of any width, a tab or the end of a line. -/
def isSpace (c : Char) : Bool :=
  let n := c.toNat
  0x09 ≤ n && n ≤ 0x0D || n = 0x20 || n = 0x85 || n = 0xA0 || n = 0x1680 ||
    0x2000 ≤ n && n ≤ 0x200A || n = 0x2028 || n = 0x2029 || n = 0x202F || n = 0x205F || n = 0x3000

/-- The glyph is white space. -/
def Glyph.isSpace (g : Glyph) : Bool := g.char?.any FlowTree.isSpace

/-- The text without the white space at its ends. -/
def Text.trim (t : Text) : Text :=
  ((t.dropWhile Glyph.isSpace).reverse.dropWhile Glyph.isSpace).reverse

end FlowTree
