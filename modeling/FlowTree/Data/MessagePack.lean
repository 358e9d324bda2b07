import FlowTree.Data.Basic
import FlowTree.Text.Glyph

/-!
Data as MessagePack bytes. `pack` writes a value with the shortest header for each number, text, list
and record; `Packed.read?` reads any value of the format from the front of some bytes and leaves what
follows it. Records are maps whose keys are texts.
-/

namespace FlowTree

/-- The lowest `count` bytes of a number, the highest of them first. -/
def bigEndian (count n : Nat) : List UInt8 :=
  (List.range count).reverse.map fun place => UInt8.ofNat (n / Nat.pow 256 place)

/-- The number that bytes spell, the highest first. -/
def ofBigEndian (bytes : List UInt8) : Nat := bytes.foldl (fun n b => n * 256 + b.toNat) 0

namespace Data

/-- The bytes of an integer. -/
def packInt (n : Int) : List UInt8 :=
  if 0 ≤ n then
    let n := n.toNat
    if n < 0x80 then [UInt8.ofNat n]
    else if n < 0x100 then 0xCC :: bigEndian 1 n
    else if n < 0x10000 then 0xCD :: bigEndian 2 n
    else if n < 0x100000000 then 0xCE :: bigEndian 4 n
    else 0xCF :: bigEndian 8 n
  else if -0x20 ≤ n then [UInt8.ofNat (n + 0x100).toNat]
  else if -0x80 ≤ n then 0xD0 :: bigEndian 1 (n + 0x100).toNat
  else if -0x8000 ≤ n then 0xD1 :: bigEndian 2 (n + 0x10000).toNat
  else if -0x80000000 ≤ n then 0xD2 :: bigEndian 4 (n + 0x100000000).toNat
  else 0xD3 :: bigEndian 8 (n + 0x10000000000000000).toNat

/-- The header of a text of the given number of bytes. -/
def packTextHeader (n : Nat) : List UInt8 :=
  if n < 32 then [UInt8.ofNat (0xA0 + n)]
  else if n < 0x100 then 0xD9 :: bigEndian 1 n
  else if n < 0x10000 then 0xDA :: bigEndian 2 n
  else 0xDB :: bigEndian 4 n

/-- The bytes of a text. -/
def packText (s : String) : List UInt8 :=
  let bytes := s.toUTF8.toList
  packTextHeader bytes.length ++ bytes

/-- The header of a list of the given number of items. -/
def packListHeader (n : Nat) : List UInt8 :=
  if n < 16 then [UInt8.ofNat (0x90 + n)]
  else if n < 0x10000 then 0xDC :: bigEndian 2 n
  else 0xDD :: bigEndian 4 n

/-- The header of a record of the given number of fields. -/
def packRecordHeader (n : Nat) : List UInt8 :=
  if n < 16 then [UInt8.ofNat (0x80 + n)]
  else if n < 0x10000 then 0xDE :: bigEndian 2 n
  else 0xDF :: bigEndian 4 n

mutual

/-- The bytes of a value. -/
def pack : Data → List UInt8
  | .null | .noList => [0xC0]
  | .bool b => [if b then 0xC3 else 0xC2]
  | .int n => packInt n
  | .str s => packText s
  | .list items => packListHeader items.length ++ packItems items
  | .record fields => packRecordHeader fields.length ++ packFields fields

/-- The bytes of values, one after the other. -/
def packItems : List Data → List UInt8
  | [] => []
  | d :: ds => pack d ++ packItems ds

/-- The bytes of names and values, one after the other. -/
def packFields : List (String × Data) → List UInt8
  | [] => []
  | (name, d) :: fs => packText name ++ pack d ++ packFields fs

end

end Data

/-- A value as it was read. -/
inductive Packed where
  | null
  | bool (b : Bool)
  | int (n : Int)
  /-- Text or plain bytes. -/
  | raw (content : List UInt8)
  | list (items : List Packed)
  | map (entries : List (Packed × Packed))
  /-- A value that no data has: a fraction or an extension of the format. -/
  | other
  deriving Repr, Inhabited

namespace Packed

/-- A reader takes a value off the front of some bytes and leaves the rest. -/
abbrev Reader (α : Type) := List UInt8 → Option (α × List UInt8)

/-- Take the given number of bytes. -/
def takeBytes (count : Nat) : Reader (List UInt8) := fun bytes =>
  let taken := bytes.take count
  if taken.length = count then some (taken, bytes.drop count) else none

/-- Take a number of the given number of bytes. -/
def takeNat (count : Nat) : Reader Nat := fun bytes => do
  let (taken, rest) ← takeBytes count bytes
  some (ofBigEndian taken, rest)

/-- Take a number of the given number of bytes, of which the upper half of the range is negative. -/
def takeInt (count : Nat) : Reader Int := fun bytes => do
  let (n, rest) ← takeNat count bytes
  some (if n < Nat.pow 256 count / 2 then (n : Int) else (n : Int) - Nat.pow 256 count, rest)

/-- Take as many values as `count` says. -/
def takeMany {α : Type} (take : Reader α) : Nat → Reader (List α)
  | 0, bytes => some ([], bytes)
  | count + 1, bytes => do
    let (a, rest) ← take bytes
    let (as, rest) ← takeMany take count rest
    some (a :: as, rest)

/-- Take a key and its value. -/
def takeEntry (take : Reader Packed) : Reader (Packed × Packed) := fun bytes => do
  let (key, rest) ← take bytes
  let (value, rest) ← take rest
  some ((key, value), rest)

/-- Take as many bytes as a number of `width` bytes says, and `more` besides. -/
def takeCounted (width more : Nat) : Reader (List UInt8) := fun bytes => do
  let (count, rest) ← takeNat width bytes
  takeBytes (count + more) rest

/-- Take the values of a list of the given length. -/
def takeList (take : Reader Packed) (count : Nat) : Reader Packed := fun bytes => do
  let (items, rest) ← takeMany take count bytes
  some (.list items, rest)

/-- Take the entries of a map of the given size. -/
def takeMap (take : Reader Packed) (count : Nat) : Reader Packed := fun bytes => do
  let (entries, rest) ← takeMany (takeEntry take) count bytes
  some (.map entries, rest)

/-- Take the value that the byte `code` opens, reading the values in it with `take`. -/
def takeAfter (take : Reader Packed) (code : UInt8) : Reader Packed := fun bytes =>
  let c := code.toNat
  if c < 0x80 then some (.int c, bytes)
  else if c < 0x90 then takeMap take (c - 0x80) bytes
  else if c < 0xA0 then takeList take (c - 0x90) bytes
  else if c < 0xC0 then do
    let (content, rest) ← takeBytes (c - 0xA0) bytes
    some (.raw content, rest)
  else if 0xE0 ≤ c then some (.int ((c : Int) - 256), bytes)
  else match code with
    | 0xC0 => some (.null, bytes)
    | 0xC2 => some (.bool false, bytes)
    | 0xC3 => some (.bool true, bytes)
    -- Bytes and texts, by the width of their length.
    | 0xC4 | 0xD9 => do
      let (content, rest) ← takeCounted 1 0 bytes
      some (.raw content, rest)
    | 0xC5 | 0xDA => do
      let (content, rest) ← takeCounted 2 0 bytes
      some (.raw content, rest)
    | 0xC6 | 0xDB => do
      let (content, rest) ← takeCounted 4 0 bytes
      some (.raw content, rest)
    -- Extensions, with a byte for their kind behind the length.
    | 0xC7 => do
      let (_, rest) ← takeCounted 1 1 bytes
      some (.other, rest)
    | 0xC8 => do
      let (_, rest) ← takeCounted 2 1 bytes
      some (.other, rest)
    | 0xC9 => do
      let (_, rest) ← takeCounted 4 1 bytes
      some (.other, rest)
    -- Fractions of two widths.
    | 0xCA => do
      let (_, rest) ← takeBytes 4 bytes
      some (.other, rest)
    | 0xCB => do
      let (_, rest) ← takeBytes 8 bytes
      some (.other, rest)
    | 0xCC => do
      let (n, rest) ← takeNat 1 bytes
      some (.int n, rest)
    | 0xCD => do
      let (n, rest) ← takeNat 2 bytes
      some (.int n, rest)
    | 0xCE => do
      let (n, rest) ← takeNat 4 bytes
      some (.int n, rest)
    -- Eight bytes without a sign are read into a number that has one.
    | 0xCF => do
      let (n, rest) ← takeInt 8 bytes
      some (.int n, rest)
    | 0xD0 => do
      let (n, rest) ← takeInt 1 bytes
      some (.int n, rest)
    | 0xD1 => do
      let (n, rest) ← takeInt 2 bytes
      some (.int n, rest)
    | 0xD2 => do
      let (n, rest) ← takeInt 4 bytes
      some (.int n, rest)
    | 0xD3 => do
      let (n, rest) ← takeInt 8 bytes
      some (.int n, rest)
    -- Extensions of one byte up to sixteen, behind the byte for their kind.
    | 0xD4 => do
      let (_, rest) ← takeBytes 2 bytes
      some (.other, rest)
    | 0xD5 => do
      let (_, rest) ← takeBytes 3 bytes
      some (.other, rest)
    | 0xD6 => do
      let (_, rest) ← takeBytes 5 bytes
      some (.other, rest)
    | 0xD7 => do
      let (_, rest) ← takeBytes 9 bytes
      some (.other, rest)
    | 0xD8 => do
      let (_, rest) ← takeBytes 17 bytes
      some (.other, rest)
    -- Lists and maps too long for their first byte.
    | 0xDC => do
      let (count, rest) ← takeNat 2 bytes
      takeList take count rest
    | 0xDD => do
      let (count, rest) ← takeNat 4 bytes
      takeList take count rest
    | 0xDE => do
      let (count, rest) ← takeNat 2 bytes
      takeMap take count rest
    | 0xDF => do
      let (count, rest) ← takeNat 4 bytes
      takeMap take count rest
    | _ => none

/-- Take a value that is nested at most `depth` deep. -/
def take : (depth : Nat) → Reader Packed
  | 0, _ => none
  | _ + 1, [] => none
  | depth + 1, code :: rest => takeAfter (take depth) code rest

/-- Read the value at the front of the bytes. Each level of nesting takes at least a byte, so the
number of bytes bounds the depth. -/
def read? (bytes : List UInt8) : Option Packed := (take bytes.length bytes).map (·.1)

/-- The text that a value is; a value that is not there is the empty text. -/
def text? : Packed → Option String
  | .null => some ""
  | .raw content => some (Text.shown (Glyph.read content))
  | _ => none

/-- The integer that a value is; a value that is not there is zero. -/
def int? : Packed → Option Int
  | .null => some 0
  | .int n => some n
  | _ => none

/-- The truth value that a value is; a value that is not there is false. -/
def bool? : Packed → Option Bool
  | .null => some false
  | .bool b => some b
  | _ => none

/-- The items of a list that may not be there. -/
def items? : Packed → Option (Option (List Packed))
  | .null => some none
  | .list items => some (some items)
  | _ => none

/-- The fields of a record by name, those of unknown names included, `none` for a record that is not
there. A record may also be written as the list of the values of all its fields, which `names` gives in
order; a list without values is as good as no record. -/
def fields? (names : List String) : Packed → Option (Option (List (String × Packed)))
  | .null => some none
  | .list items =>
    if items.isEmpty then some none
    else if items.length = names.length then some (some (names.zip items))
    else none
  | .map entries => do
    let fields ← entries.mapM fun ((key, value) : Packed × Packed) => do
      let name ← key.text?
      return (name, value)
    return some fields
  | _ => none

end Packed

end FlowTree
