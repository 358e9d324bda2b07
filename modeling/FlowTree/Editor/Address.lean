import FlowTree.Text.Bytes

/-!
Addresses of machines: four decimal numbers with points, or up to eight groups of hexadecimal digits
with colons. In the second form a double colon stands for the groups that are left out, the last two
groups may be written in the first form, and a zone may follow a percent sign.
-/

namespace FlowTree.Editor

open Bytes

/-- Why bytes are no address. -/
inductive AddressFault where
  /-- There is neither a point nor a colon. -/
  | formless
  | addressMissing
  | zoneEmpty
  | groupTooLong
  | groupEmpty
  /-- Decimal numbers stand elsewhere than at the end. -/
  | numbersMisplaced
  /-- There is no room for the decimal numbers. -/
  | numbersTooLate
  | colonExpected
  | endsWithColon
  | secondDoubleColon
  | trailing
  | tooFewGroups
  | doubleColonForNothing
  | leadingZero
  | numberTooGreat
  | numberEmpty
  | tooManyNumbers
  | strangeCharacter
  | tooFewNumbers
  deriving DecidableEq, Repr

/-- The fault in words. -/
def AddressFault.message : AddressFault → String
  | .formless => "unable to parse IP"
  | .addressMissing => "missing IPv6 address"
  | .zoneEmpty => "zone must be a non-empty string"
  | .groupTooLong => "each group must have 4 or less digits"
  | .groupEmpty => "each colon-separated field must have at least one digit"
  | .numbersMisplaced => "embedded IPv4 address must replace the final 2 fields of the address"
  | .numbersTooLate => "too many hex fields to fit an embedded IPv4 at the end of the address"
  | .colonExpected => "unexpected character, want colon"
  | .endsWithColon => "colon must be followed by more characters"
  | .secondDoubleColon => "multiple :: in address"
  | .trailing => "trailing garbage after address"
  | .tooFewGroups => "address string too short"
  | .doubleColonForNothing => "the :: must expand to at least one field of zeros"
  | .leadingZero => "IPv4 field has octet with leading zero"
  | .numberTooGreat => "IPv4 field has value >255"
  | .numberEmpty => "IPv4 field must have at least one digit"
  | .tooManyNumbers => "IPv4 address too long"
  | .strangeCharacter => "unexpected character"
  | .tooFewNumbers => "IPv4 address too short"

/-- A fault in an address, with the part of it where the fault was found, if it was found in one. -/
structure BadAddress where
  address : List UInt8
  fault : AddressFault
  part : List UInt8
  deriving DecidableEq, Repr

/-- The fault in words, with the address that it is in. -/
def BadAddress.message (b : BadAddress) : String :=
  "ParseAddr(" ++ quote b.address ++ "): " ++ b.fault.message ++
    if b.part.isEmpty then "" else " (at " ++ quote b.part ++ ")"

/-- What was found wrong and where. -/
abbrev Found := AddressFault × List UInt8

/-- Check four decimal numbers, of which `count` and the point after each are passed. The number at hand
is `value` and has `digits` digits so far. -/
def checkNumbers : (count value digits : Nat) → List UInt8 → Except Found Unit
  | count, _, _, [] => if count < 3 then .error (.tooFewNumbers, []) else .ok ()
  | count, value, digits, b :: rest =>
    if isDigit b then
      if digits = 1 && value = 0 then .error (.leadingZero, [])
      else
        let value := value * 10 + (b.toNat - '0'.toNat)
        if 255 < value then .error (.numberTooGreat, []) else checkNumbers count value (digits + 1) rest
    else if b = ascii '.' then
      if digits = 0 || rest.isEmpty then .error (.numberEmpty, b :: rest)
      else if count = 3 then .error (.tooManyNumbers, [])
      else checkNumbers (count + 1) 0 0 rest
    else .error (.strangeCharacter, b :: rest)

/-- Check the number of groups once the bytes are used up: eight of them, or fewer with a double colon. -/
def checkCount (groups : Nat) (doubled : Bool) (rest : List UInt8) : Except Found Unit :=
  if !rest.isEmpty then .error (.trailing, rest)
  else if groups < 8 then if doubled then .ok () else .error (.tooFewGroups, [])
  else if doubled then .error (.doubleColonForNothing, []) else .ok ()

/-- Check groups of hexadecimal digits. There is room for `room` more of them, and `doubled` tells that
there was a double colon. -/
def checkGroups : (room : Nat) → (doubled : Bool) → List UInt8 → Except Found Unit
  | 0, doubled, rest => checkCount 8 doubled rest
  | room + 1, doubled, bytes =>
    let digits := bytes.takeWhile fun b => (hexValue? b).isSome
    let rest := bytes.drop digits.length
    let groups := 7 - room
    if 4 < digits.length then .error (.groupTooLong, bytes)
    else if digits.isEmpty then .error (.groupEmpty, bytes)
    else match rest with
      | [] => checkCount (groups + 1) doubled []
      | b :: more =>
        if b = ascii '.' then
          if !doubled && groups ≠ 6 then .error (.numbersMisplaced, bytes)
          else if 6 < groups then .error (.numbersTooLate, bytes)
          else do
            checkNumbers 0 0 0 bytes
            checkCount (groups + 2) doubled []
        else if b ≠ ascii ':' then .error (.colonExpected, rest)
        else match more with
          | [] => .error (.endsWithColon, rest)
          | c :: others =>
            if c ≠ ascii ':' then checkGroups room doubled more
            else if doubled then .error (.secondDoubleColon, more)
            else if others.isEmpty then checkCount (groups + 1) true []
            else checkGroups room true others

/-- Check an address of groups, without its zone. -/
def checkGrouped (bytes : List UInt8) : Except Found Unit :=
  match bytes with
  | a :: b :: rest =>
    if a = ascii ':' && b = ascii ':' then
      if rest.isEmpty then .ok () else checkGroups 8 true rest
    else checkGroups 8 false bytes
  | _ => checkGroups 8 false bytes

/-- The two forms of an address. -/
inductive AddressForm where
  | numbers
  | groups
  deriving DecidableEq, Repr

/-- The form of an address. The first point, colon or percent sign tells which it should have. -/
def addressForm (address : List UInt8) : Except BadAddress AddressForm :=
  let found {α : Type} (e : Except Found α) : Except BadAddress α :=
    e.mapError fun (fault, part) => ⟨address, fault, part⟩
  match address.dropWhile fun b => !isOneOf ".:%" b with
  | [] => found (.error (.formless, []))
  | b :: _ =>
    if b = ascii '.' then found do
      checkNumbers 0 0 0 address
      .ok .numbers
    else if b = ascii ':' then found do
      match cut (ascii '%') address with
      | (_, some []) => .error (.zoneEmpty, [])
      | (groups, _) =>
        checkGrouped groups
        .ok .groups
    else found (.error (.addressMissing, []))

end FlowTree.Editor
