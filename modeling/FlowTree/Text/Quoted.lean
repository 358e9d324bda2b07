import FlowTree.Text.Glyph
import FlowTree.Text.Digits
import FlowTree.Text.Printable

/-!
Quoted text. Quoting puts a text between double quotes and writes what cannot be printed as an escape;
unquoting reads the escapes back. Each escape stands for one character, so `\xff` is the character
numbered 255 and not a byte.
-/

namespace FlowTree.Text

/-- One character as it stands between two quotation marks. -/
def quoteChar (mark c : Char) : List Char :=
  if c = mark || c = '\\' then ['\\', c]
  else if isPrintable c then [c]
  else match c.toNat with
    | 0x07 => ['\\', 'a']
    | 0x08 => ['\\', 'b']
    | 0x09 => ['\\', 't']
    | 0x0A => ['\\', 'n']
    | 0x0B => ['\\', 'v']
    | 0x0C => ['\\', 'f']
    | 0x0D => ['\\', 'r']
    | n =>
      if n < 0x20 || n = 0x7F then '\\' :: 'x' :: hexDigits 2 n
      else if n < 0x10000 then '\\' :: 'u' :: hexDigits 4 n
      else '\\' :: 'U' :: hexDigits 8 n

/-- One glyph as it stands between double quotes: a stray byte is written by its number. -/
def quoteGlyph : Glyph → List Char
  | .char c => quoteChar '"' c
  | .stray b => '\\' :: 'x' :: hexDigits 2 b.toNat

/-- The text between double quotes. -/
def quote (t : Text) : String := String.ofList ('"' :: t.flatMap quoteGlyph ++ ['"'])

/-- The character between single quotes. -/
def quoteSingle (c : Char) : String := String.ofList ('\x27' :: quoteChar '\x27' c ++ ['\x27'])

/-- The string between double quotes. -/
def quoteString (s : String) : String := quote (ofString s)

/-- The number spelled by the first `count` glyphs in `base`. -/
def leadingNumber? (base count : Nat) (t : Text) : Option Nat :=
  if count ≤ t.length then ofDigits? base ((t.take count).map Glyph.toChar) else none

/-- The character numbered `n`, when there is one. -/
def charOf? (n : Nat) : Option Char := if n.isValidChar then some (Char.ofNat n) else none

/-- The character that the escape after a backslash stands for, and the number of glyphs it takes. -/
def escape? : Text → Option (Char × Nat)
  | [] => none
  | g :: rest =>
    match g.toChar with
    | 'a' => some ('\x07', 1)
    | 'b' => some ('\x08', 1)
    | 'f' => some ('\x0c', 1)
    | 'n' => some ('\n', 1)
    | 'r' => some ('\r', 1)
    | 't' => some ('\t', 1)
    | 'v' => some ('\x0b', 1)
    | '\\' => some ('\\', 1)
    | '"' => some ('"', 1)
    | 'x' => do some (← charOf? (← leadingNumber? 16 2 rest), 3)
    | 'u' => do some (← charOf? (← leadingNumber? 16 4 rest), 5)
    | 'U' => do some (← charOf? (← leadingNumber? 16 8 rest), 9)
    | _ => do
      let n ← leadingNumber? 8 3 (g :: rest)
      if n ≤ 255 then some (Char.ofNat n, 3) else none

/-- The characters that a text between double quotes stands for, `none` when an escape is malformed or
a quote stands alone. -/
def unquote? : Text → Option (List Char)
  | [] => some []
  | g :: rest =>
    match g.toChar with
    | '"' => none
    | '\\' =>
      match escape? rest with
      | some (c, used) => (unquote? (rest.drop used)).map (c :: ·)
      | none => none
    | c => (unquote? rest).map (c :: ·)
termination_by t => t.length
decreasing_by
  · simp only [List.length_drop, List.length_cons]; omega
  · simp

end FlowTree.Text
