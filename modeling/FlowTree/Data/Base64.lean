/-!
Bytes as base64 text: four letters for three bytes, the last group filled up with equals signs. Ends of
lines among the letters do not count.
-/

namespace FlowTree.Base64

/-- The value of a letter. -/
def digit? (c : Char) : Option Nat :=
  if c.isUpper then some (c.toNat - 'A'.toNat)
  else if c.isLower then some (c.toNat - 'a'.toNat + 26)
  else if c.isDigit then some (c.toNat - '0'.toNat + 52)
  else if c = '+' then some 62
  else if c = '/' then some 63
  else none

/-- The first `count` bytes of the three that the values of four letters give. -/
def group (count a b c d : Nat) : List UInt8 :=
  let n := ((a * 64 + b) * 64 + c) * 64 + d
  [n / 65536, n / 256, n].take count |>.map UInt8.ofNat

/-- The bytes that groups of four letters stand for. -/
def groups? : List Char → Option (List UInt8)
  | [] => some []
  | [a, b, '=', '='] => do some (group 1 (← digit? a) (← digit? b) 0 0)
  | [a, b, c, '='] => do some (group 2 (← digit? a) (← digit? b) (← digit? c) 0)
  | a :: b :: c :: d :: rest => do
    let bytes := group 3 (← digit? a) (← digit? b) (← digit? c) (← digit? d)
    some (bytes ++ (← groups? rest))
  | _ => none

/-- The bytes that a text stands for. -/
def decode? (text : String) : Option (List UInt8) :=
  groups? (text.toList.filter fun c => c ≠ '\n' && c ≠ '\r')

end FlowTree.Base64
