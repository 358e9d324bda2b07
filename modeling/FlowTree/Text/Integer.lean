import FlowTree.Text.Digits
import FlowTree.Text.Space

/-!
Integers in text. A literal is written in base ten, or in the base its start names: `0x`, `0o` and
`0b`, or a plain leading zero for base eight. A literal beyond 64 bits is told from a malformed one,
and reads as the nearest limit. `numeral?` reads plain decimal numerals and `leadingInteger?` the
integer at the start of a text.
-/

namespace FlowTree.Text

/-- Why a literal is no 64-bit integer. -/
inductive LiteralError where
  | malformed
  | outOfRange
  deriving DecidableEq, Repr

/-- How the error reads. -/
def LiteralError.message : LiteralError → String
  | .malformed => "invalid syntax"
  | .outOfRange => "value out of range"

/-- The outcome of reading a literal: its value, or the value that stands in and the reason. -/
structure Literal where
  value : Int
  error? : Option LiteralError := none
  deriving DecidableEq, Repr

/-- The greatest magnitude that is still read digit by digit. -/
def magnitudeLimit : Nat := UInt64.size - 1

/-- Read the digits of a magnitude from the left. Reading stops at the first digit that takes it over
the limit, so what follows there is not looked at. Underscores are skipped. -/
def readMagnitude (base : Nat) : Nat → List Char → Except LiteralError Nat
  | n, [] => .ok n
  | n, c :: rest =>
    if c = '_' then readMagnitude base n rest
    else match digitValue? c with
      | none => .error .malformed
      | some d =>
        if base ≤ d then .error .malformed
        else if magnitudeLimit < n * base + d then .error .outOfRange
        else readMagnitude base (n * base + d) rest

/-- The base a magnitude is written in and its digits. -/
def splitBase : List Char → Nat × List Char
  | '0' :: mark :: d :: rest =>
    if mark = 'x' || mark = 'X' then (16, d :: rest)
    else if mark = 'o' || mark = 'O' then (8, d :: rest)
    else if mark = 'b' || mark = 'B' then (2, d :: rest)
    else (8, mark :: d :: rest)
  | '0' :: rest => (8, rest)
  | digits => (10, digits)

/-- Underscores stand between digits only; the mark of a base counts as a digit. `afterDigit` tells
that the character before was a digit. -/
def separatorsFit (hex : Bool) : (afterDigit afterSeparator : Bool) → List Char → Bool
  | _, afterSeparator, [] => !afterSeparator
  | afterDigit, afterSeparator, c :: rest =>
    if c.isDigit || hex && (digitValue? c).isSome then separatorsFit hex true false rest
    else if c = '_' then afterDigit && separatorsFit hex false true rest
    else !afterSeparator && separatorsFit hex false false rest

/-- The separators of a magnitude are well placed. -/
def separatorsOk : List Char → Bool
  | '0' :: mark :: rest =>
    if mark = 'x' || mark = 'X' then separatorsFit true true false rest
    else if mark = 'o' || mark = 'O' || mark = 'b' || mark = 'B' then separatorsFit false true false rest
    else separatorsFit false false false ('0' :: mark :: rest)
  | digits => separatorsFit false false false digits

/-- Read a magnitude in the base its start names. -/
def readNatural (digits : List Char) : Except LiteralError Nat :=
  if digits.isEmpty then .error .malformed
  else
    let (base, rest) := splitBase digits
    match readMagnitude base 0 rest with
    | .error e => .error e
    | .ok n => if digits.contains '_' && !separatorsOk digits then .error .malformed else .ok n

/-- The sign at the start of a numeral, `true` for a minus, and what follows it. -/
def splitSign : List Char → Bool × List Char
  | '-' :: rest => (true, rest)
  | '+' :: rest => (false, rest)
  | cs => (false, cs)

/-- The least magnitude beyond the positive numbers of 64 bits with a sign. -/
def signedLimit : Nat := 0x8000000000000000

/-- The signed number of the magnitude, cut to 64 bits. -/
def clampSigned (negative : Bool) (magnitude : Except LiteralError Nat) : Literal :=
  match magnitude with
  | .error .malformed => ⟨0, some .malformed⟩
  | .error .outOfRange => ⟨if negative then -signedLimit else signedLimit - 1, some .outOfRange⟩
  | .ok n =>
    if negative then
      if signedLimit < n then ⟨-signedLimit, some .outOfRange⟩ else ⟨-(n : Int), none⟩
    else
      if signedLimit ≤ n then ⟨signedLimit - 1, some .outOfRange⟩ else ⟨n, none⟩

/-- Read an integer literal. A malformed one stands for zero, one out of range for the nearest limit. -/
def readInteger (s : String) : Literal :=
  let (negative, digits) := splitSign s.toList
  clampSigned negative (readNatural digits)

/-- The number of a decimal numeral without sign that is below `bound`. -/
def numeral? (bound : Nat) (s : String) : Option Nat :=
  if s.isEmpty then none
  else do
    let n ← ofDigits? 10 s.toList
    if n < bound then some n else none

/-- Blanks that may stand before an integer: all white space but the line feed. -/
def isBlankBeforeInteger (c : Char) : Bool := isSpace c && c ≠ '\n'

/-- The decimal integer at the start of a text, after blanks. What follows it does not matter. -/
def leadingInteger? (s : String) : Option Int :=
  let (negative, rest) := splitSign (s.toList.dropWhile isBlankBeforeInteger)
  let digits := rest.takeWhile Char.isDigit
  if digits.isEmpty then none
  else
    let literal := clampSigned negative (readMagnitude 10 0 digits)
    if literal.error?.isSome then none else some literal.value

end FlowTree.Text
