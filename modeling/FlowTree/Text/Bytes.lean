import FlowTree.Text.Quoted

/-!
Bytes as text: the ASCII characters among them, their digits, and the places where they are cut.
-/

namespace FlowTree.Bytes

/-- The byte of an ASCII character. -/
def ascii (c : Char) : UInt8 := UInt8.ofNat c.toNat

/-- The byte is a letter. -/
def isLetter (b : UInt8) : Bool := ascii 'a' ≤ b && b ≤ ascii 'z' || ascii 'A' ≤ b && b ≤ ascii 'Z'

/-- The byte is a digit. -/
def isDigit (b : UInt8) : Bool := ascii '0' ≤ b && b ≤ ascii '9'

/-- The byte is one of the characters. -/
def isOneOf (chars : String) (b : UInt8) : Bool := (chars.toList.map ascii).contains b

/-- The value of a hexadecimal digit. -/
def hexValue? (b : UInt8) : Option Nat := if b < 0x80 then Text.digitValue? (Char.ofNat b.toNat) else none

/-- The text between quotes that bytes spell. -/
def quote (bytes : List UInt8) : String := Text.quote (Glyph.read bytes)

/-- The part of the bytes before the first `b` and the part after it, if there is one. -/
def cut (b : UInt8) (bytes : List UInt8) : List UInt8 × Option (List UInt8) :=
  match bytes.dropWhile (· ≠ b) with
  | [] => (bytes, none)
  | _ :: after => (bytes.takeWhile (· ≠ b), some after)

/-- The part of the bytes before the last `b` and the part after it, if there is one. -/
def cutLast (b : UInt8) (bytes : List UInt8) : Option (List UInt8 × List UInt8) :=
  match bytes.reverse.dropWhile (· ≠ b) with
  | [] => none
  | _ :: before => some (before.reverse, (bytes.reverse.takeWhile (· ≠ b)).reverse)

end FlowTree.Bytes
