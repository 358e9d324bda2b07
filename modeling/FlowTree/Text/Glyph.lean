/-!
Text that may hold bytes of no character. Source files are bytes; reading them as UTF-8 leaves every
byte that belongs to no well-formed character as a glyph of its own, so nothing is lost: the bytes of
a text are the bytes it was read from.
-/

namespace FlowTree

/-- A unit of text: a character, or a byte that is part of no character. -/
inductive Glyph where
  | char (c : Char)
  | stray (byte : UInt8)
  deriving DecidableEq, Repr, Inhabited

namespace Glyph

/-- The character a glyph reads as: a stray byte reads as the replacement character. -/
def toChar : Glyph → Char
  | .char c => c
  | .stray _ => '\ufffd'

/-- The character of a glyph that is one. -/
def char? : Glyph → Option Char
  | .char c => some c
  | .stray _ => none

/-- The number of bytes a glyph takes. -/
def width : Glyph → Nat
  | .char c => c.utf8Size
  | .stray _ => 1

def bytes : Glyph → List UInt8
  | .char c => (String.singleton c).toUTF8.toList
  | .stray b => [b]

/-- The byte continues a character of several bytes. -/
def isContinuation (b : UInt8) : Bool := 0x80 ≤ b && b ≤ 0xBF

/-- The character whose last six bits are those of the continuation byte `b`. -/
def extend (high : Nat) (b : UInt8) : Nat := high * 64 + (b.toNat - 0x80)

/-- The well-formed character at the start of the bytes, with the number of bytes after its first.
Overlong forms, surrogates and numbers above `0x10FFFF` are not well formed. -/
def leading? : List UInt8 → Option (Char × Nat)
  | [] => none
  | a :: rest =>
    if a < 0x80 then some (Char.ofNat a.toNat, 0)
    else if 0xC2 ≤ a && a ≤ 0xDF then
      match rest with
      | b :: _ => if isContinuation b then some (Char.ofNat (extend (a.toNat - 0xC0) b), 1) else none
      | _ => none
    else if 0xE0 ≤ a && a ≤ 0xEF then
      match rest with
      | b :: c :: _ =>
        let least : UInt8 := if a = 0xE0 then 0xA0 else 0x80
        let greatest : UInt8 := if a = 0xED then 0x9F else 0xBF
        if least ≤ b && b ≤ greatest && isContinuation c then
          some (Char.ofNat (extend (extend (a.toNat - 0xE0) b) c), 2)
        else none
      | _ => none
    else if 0xF0 ≤ a && a ≤ 0xF4 then
      match rest with
      | b :: c :: d :: _ =>
        let least : UInt8 := if a = 0xF0 then 0x90 else 0x80
        let greatest : UInt8 := if a = 0xF4 then 0x8F else 0xBF
        if least ≤ b && b ≤ greatest && isContinuation c && isContinuation d then
          some (Char.ofNat (extend (extend (extend (a.toNat - 0xF0) b) c) d), 3)
        else none
      | _ => none
    else none

/-- Read bytes as glyphs, one character or one stray byte at a time. -/
def read : List UInt8 → List Glyph
  | [] => []
  | a :: rest =>
    match leading? (a :: rest) with
    | some (c, more) => .char c :: read (rest.drop more)
    | none => .stray a :: read rest
termination_by bytes => bytes.length
decreasing_by
  · simp only [List.length_drop, List.length_cons]; omega
  · simp

end Glyph

/-- Text that may hold stray bytes. -/
abbrev Text := List Glyph

namespace Text

/-- A string as text. It holds no stray byte. -/
def ofString (s : String) : Text := s.toList.map .char

/-- The text that the bytes spell. -/
def ofBytes (bytes : ByteArray) : Text := Glyph.read bytes.toList

def bytes (t : Text) : List UInt8 := t.flatMap Glyph.bytes

/-- The text with every stray byte shown as the replacement character. -/
def shown (t : Text) : String := String.ofList (t.map Glyph.toChar)

/-- The text as a string, when it holds no stray byte. -/
def toString? (t : Text) : Option String :=
  (t.mapM Glyph.char?).map String.ofList

/-- The lines of the text: the parts between line feeds, of which there is at least one. -/
def lines (t : Text) : List Text := t.splitOn (.char '\n')

/-- The text ends with a line feed. -/
def endsLine (t : Text) : Bool := t.getLast? == some (.char '\n')

end Text

end FlowTree
