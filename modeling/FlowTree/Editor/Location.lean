import FlowTree.Editor.Address

/-!
Locations: the URIs by which editors know documents, and the file paths in them. Only the path of a URI
is kept, but every part of it is checked. Paths are those of Unix: a drive letter is a name like others.
-/

namespace FlowTree.Editor

open Bytes

/-- What is wrong with a URI. -/
inductive UriFault where
  | controlCharacter
  | noScheme
  | colonInFirstSegment
  /-- A percent sign that no two hexadecimal digits follow, or that may not stand where it is. -/
  | escape (text : List UInt8)
  | openBracket
  /-- What stands in brackets is no address of groups, or the brackets do not start the host. -/
  | notGrouped
  | address (b : BadAddress)
  /-- What follows the colon after a host is no number. -/
  | service (text : List UInt8)
  | hostCharacter (byte : UInt8)
  | userInfo
  deriving DecidableEq, Repr

/-- The fault in words. -/
def UriFault.message : UriFault → String
  | .controlCharacter => "net/url: invalid control character in URL"
  | .noScheme => "missing protocol scheme"
  | .colonInFirstSegment => "first path segment in URL cannot contain colon"
  | .escape text => "invalid URL escape " ++ quote text
  | .openBracket => "missing ']' in host"
  | .notGrouped => "invalid IP-literal"
  | .address b => "invalid host: " ++ b.message
  | .service text => "invalid port " ++ quote text ++ " after host"
  | .hostCharacter byte => "invalid character " ++ quote [byte] ++ " in host name"
  | .userInfo => "net/url: invalid userinfo"

/-! ### Escapes -/

/-- The parts of a URI, by what may stand in them. -/
inductive Component where
  | plain
  | host
  /-- The zone of an address in brackets. -/
  | zone
  deriving DecidableEq, Repr

/-- The byte may stand in a host as it is. -/
def isHostByte (b : UInt8) : Bool :=
  isLetter b || isDigit b || isOneOf "!$&'()*+,;=:[]<>\"-_.~" b

/-- A percent sign before these two digits may stand in the component. In a host only bytes beyond ASCII
are escaped, and the percent sign itself. -/
def escapeAllowed (component : Component) (high low : Nat) : Bool :=
  match component with
  | .plain => true
  | .host => 8 ≤ high || high = 2 && low = 5
  | .zone =>
    let b := UInt8.ofNat (high * 16 + low)
    high = 2 && low = 5 || b = 0x20 || isHostByte b

/-- The bytes with their escapes resolved. -/
def unescape (component : Component) : List UInt8 → Except UriFault (List UInt8)
  | [] => .ok []
  | 0x25 :: rest =>
    match rest with
    | a :: b :: more =>
      match hexValue? a, hexValue? b with
      | some high, some low =>
        if escapeAllowed component high low then do
          .ok (UInt8.ofNat (high * 16 + low) :: (← unescape component more))
        else .error (.escape [0x25, a, b])
      | _, _ => .error (.escape [0x25, a, b])
    | _ => .error (.escape (0x25 :: rest))
  | b :: rest =>
    if component ≠ .plain && b < 0x80 && !isHostByte b then .error (.hostCharacter b)
    else do .ok (b :: (← unescape component rest))

/-! ### Parts -/

/-- The scheme at the start, if there is one, and what follows its colon. -/
def scheme? (bytes : List UInt8) : Except UriFault (Option (List UInt8) × List UInt8) :=
  let inScheme (b : UInt8) := isLetter b || isDigit b || isOneOf "+-." b
  match bytes.takeWhile inScheme, bytes.dropWhile inScheme with
  | scheme, 0x3A :: rest =>
    match scheme with
    | [] => .error .noScheme
    | first :: _ => .ok (if isLetter first then (some scheme, rest) else (none, bytes))
  | _, _ => .ok (none, bytes)

/-- Nothing, or a colon and digits. -/
def isService : List UInt8 → Bool
  | [] => true
  | b :: rest => b = ascii ':' && rest.all isDigit

/-- The bytes up to the first escaped percent sign, and those from it on, if there is one. -/
def cutZone : List UInt8 → Option (List UInt8 × List UInt8)
  | [] => none
  | b :: rest =>
    if [0x25, 0x32, 0x35].isPrefixOf (b :: rest) then some ([], b :: rest)
    else (cutZone rest).map fun (before, zone) => (b :: before, zone)

/-- What stands between the brackets of a host, with its escapes resolved. Those of a zone follow rules of
their own. -/
def unescapeAddress (address : List UInt8) : Except UriFault (List UInt8) :=
  match cutZone address with
  | some (before, zone) => do .ok ((← unescape .host before) ++ (← unescape .zone zone))
  | none => unescape .host address

/-- Check a host that starts with a bracket: an address of groups and the number after its colon. -/
def checkBracketed (host : List UInt8) : Except UriFault Unit := do
  match cutLast (ascii ']') host with
  | none => throw .openBracket
  | some (before, service) =>
    if !isService service then throw (.service service)
    match addressForm (← unescapeAddress (before.drop 1)) with
    | .error b => throw (.address b)
    | .ok .numbers => throw .notGrouped
    | .ok .groups => pure ()

/-- Check a host, which may be an address in brackets, and the number after its colon. -/
def checkHost (host : List UInt8) : Except UriFault Unit := do
  match cutLast (ascii '[') host with
  | some ([], _) => checkBracketed host
  | some _ => throw .notGrouped
  | none =>
    if let some (_, service) := cutLast (ascii ':') host then
      if !service.all isDigit then throw (.service (ascii ':' :: service))
    discard (unescape .host host)

/-- The byte may stand in the name and password of a user. -/
def isUserByte (b : UInt8) : Bool := isLetter b || isDigit b || isOneOf "-._:~!$&'()*+,;=%@" b

/-- Check an authority: a host, after a user where there is an at sign. -/
def checkAuthority (authority : List UInt8) : Except UriFault Unit := do
  match cutLast (ascii '@') authority with
  | none => checkHost authority
  | some (user, host) =>
    checkHost host
    if !user.all isUserByte then throw .userInfo
    let (name, password?) := cut (ascii ':') user
    discard (unescape .plain name)
    discard (unescape .plain (password?.getD []))

/-- The path of a URI that has no fragment. A URI with a scheme and no slash after it has none. -/
def pathOf (bytes : List UInt8) : Except UriFault (List UInt8) := do
  if bytes.any fun b => b < 0x20 || b = 0x7F then throw .controlCharacter
  if bytes = [ascii '*'] then return bytes
  let (scheme?, rest) ← scheme? bytes
  let (rest, _) := cut (ascii '?') rest
  let slash := ascii '/'
  if rest.head? ≠ some slash then
    if scheme?.isSome then return []
    if (cut slash rest).1.contains (ascii ':') then throw .colonInFirstSegment
  -- Two slashes open an authority, but without a scheme three of them are a path.
  if [slash, slash].isPrefixOf rest && (scheme?.isSome || !([slash, slash, slash].isPrefixOf rest)) then
    let afterSlashes := rest.drop 2
    checkAuthority (afterSlashes.takeWhile (· ≠ slash))
    unescape .plain (afterSlashes.dropWhile (· ≠ slash))
  else unescape .plain rest

/-- The message about a URI that cannot be used; `part` is the part of it that was looked at. -/
def faultMessage (uri : String) (part : List UInt8) (f : UriFault) : String :=
  "invalid URI " ++ uri ++ ": parse " ++ quote part ++ ": " ++ f.message

/-- The file path of a URI, or what is said of a URI that cannot be used. -/
def pathOfUri (uri : String) : Except String Text :=
  let bytes := uri.toUTF8.toList
  let (before, fragment?) := cut (ascii '#') bytes
  match pathOf before with
  | .error f => .error (faultMessage uri before f)
  | .ok path =>
    match unescape .plain (fragment?.getD []) with
    | .error f => .error (faultMessage uri bytes f)
    | .ok _ => .ok (Glyph.read path)

end FlowTree.Editor
